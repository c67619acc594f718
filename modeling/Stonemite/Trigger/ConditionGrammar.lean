import Stonemite.Trigger.Conditions

/-!
# The condition grammar

What the tokens of a condition derive, and with which tree: `or` over `and` over `not` over comparisons and groups. The
parser finds a tree exactly for what the grammar derives, and that tree.
-/

namespace Stonemite.Triggers

variable {P : Platform}

/-- The levels of the grammar, the weakest operator first. -/
inductive Level
  | or
  | and
  | unary

/-- The tokens derive the condition at a level, with at most so many nested negations and groups. -/
inductive Derives : Level → Nat → List (Token P) → Condition P → Prop
  | truthy {depth : Nat} (operand : Operand P) : Derives .unary depth [.operand operand] (.truthy operand)
  | compare {depth : Nat} (left : Operand P) (op : CompareOp) (right : Operand P) :
    Derives .unary depth [.operand left, .op op, .operand right] (.compare left op right)
  | group {depth : Nat} {s : List (Token P)} {c : Condition P} (inner : Derives .or depth s c) :
    Derives .unary (depth + 1) (.leftParen :: (s ++ [.rightParen])) c
  | not {depth : Nat} {s : List (Token P)} {c : Condition P} (inner : Derives .unary depth s c) :
    Derives .unary (depth + 1) (.not :: s) (.not c)
  | single {depth : Nat} {s : List (Token P)} {c : Condition P} (inner : Derives .unary depth s c) : Derives .and depth s c
  | and {depth : Nat} {s t : List (Token P)} {left right : Condition P} (hleft : Derives .and depth s left)
    (hright : Derives .unary depth t right) : Derives .and depth (s ++ .and :: t) (.and left right)
  | conjunction {depth : Nat} {s : List (Token P)} {c : Condition P} (inner : Derives .and depth s c) : Derives .or depth s c
  | or {depth : Nat} {s t : List (Token P)} {left right : Condition P} (hleft : Derives .or depth s left)
    (hright : Derives .and depth t right) : Derives .or depth (s ++ .or :: t) (.or left right)

/-! ### Tokens up to the end -/

/-- The tokens end with the only end token. -/
def Ended (p : Parser P) : Prop := ∃ body, p = body ++ [.finish] ∧ Token.finish ∉ body

namespace Ended
variable {p : Parser P} {t : Token P} {s : List (Token P)}

theorem finish : Ended ([.finish] : Parser P) := ⟨[], rfl, List.not_mem_nil⟩

theorem ne_nil (h : Ended p) : p ≠ [] := by
  obtain ⟨body, rfl, -⟩ := h
  exact List.append_ne_nil_of_right_ne_nil _ (List.cons_ne_nil _ _)

theorem cons (h : Ended p) (ht : t ≠ .finish) : Ended (t :: p) := by
  obtain ⟨body, rfl, hbody⟩ := h
  refine ⟨t :: body, rfl, fun hmem => ?_⟩
  rcases List.mem_cons.mp hmem with hfirst | hmem
  · exact ht hfirst.symm
  · exact hbody hmem

theorem append (h : Ended p) (hs : Token.finish ∉ s) : Ended (s ++ p) := by
  obtain ⟨body, rfl, hbody⟩ := h
  refine ⟨s ++ body, by rw [List.append_assoc], fun hmem => ?_⟩
  rcases List.mem_append.mp hmem with hmem | hmem
  · exact hs hmem
  · exact hbody hmem

theorem of_current (h : Ended p) (ht : p.current = t) (hne : t ≠ .finish) :
    ∃ rest, p = t :: rest ∧ p.advance = rest ∧ Ended rest := by
  obtain ⟨body, rfl, hbody⟩ := h
  cases body with
  | nil => exact absurd ht.symm hne
  | cons first body =>
    obtain rfl : first = t := ht
    have hrest : Ended (body ++ [Token.finish] : Parser P) := ⟨body, rfl, fun hmem => hbody (List.mem_cons_of_mem _ hmem)⟩
    refine ⟨body ++ [Token.finish], rfl, ?_, hrest⟩
    cases body <;> rfl

theorem of_current_finish (h : Ended p) (ht : p.current = .finish) : p = [.finish] := by
  obtain ⟨body, rfl, hbody⟩ := h
  cases body with
  | nil => rfl
  | cons first body => exact absurd (List.mem_cons.mpr (.inl (Eq.symm ht))) hbody

end Ended

theorem advance_cons {t : Token P} {p : Parser P} (h : p ≠ []) : Parser.advance (t :: p) = p := by
  cases p with
  | nil => exact absurd rfl h
  | cons first rest => rfl

theorem Derives.ne_nil {level : Level} {depth : Nat} {s : List (Token P)} {c : Condition P} (h : Derives level depth s c) :
    s ≠ [] := by
  induction h with
  | truthy | compare | group | not => exact List.cons_ne_nil _ _
  | single inner ih | conjunction inner ih => exact ih
  | and hleft hright ihleft ihright | or hleft hright ihleft ihright =>
    exact List.append_ne_nil_of_left_ne_nil ihleft _

theorem Derives.finish_notMem {level : Level} {depth : Nat} {s : List (Token P)} {c : Condition P}
    (h : Derives level depth s c) : Token.finish ∉ s := by
  induction h with
  | truthy | compare => simp
  | group inner ih => simpa using ih
  | not inner ih => simpa using ih
  | single inner ih | conjunction inner ih => exact ih
  | and hleft hright ihleft ihright | or hleft hright ihleft ihright => simp [ihleft, ihright]

/-! ### What is parsed is derived -/

namespace Parser

/-- What `parse` finds it derives at the level, from a beginning of its tokens. -/
def Sound (level : Level) (depth : Nat) (parse : Parser P → Option (Condition P × Parser P)) : Prop :=
  ∀ (p : Parser P) (c : Condition P) (rest : Parser P), Ended p → parse p = some (c, rest) →
    Ended rest ∧ ∃ s, p = s ++ rest ∧ Derives level depth s c

variable {unary : Parser P → Option (Condition P × Parser P)} {depth : Nat}

theorem andLoop_sound (hunary : Sound .unary depth unary) (fuel : Nat) {p rest : Parser P} {s : List (Token P)}
    {node c : Condition P} (hended : Ended p) (hnode : Derives .and depth s node)
    (h : andLoop unary fuel node p = some (c, rest)) :
    Ended rest ∧ ∃ t, p = t ++ rest ∧ Derives .and depth (s ++ t) c := by
  induction fuel generalizing p s node with
  | zero =>
    obtain ⟨rfl, rfl⟩ := Prod.mk.inj (Option.some.inj h)
    exact ⟨hended, [], rfl, by rwa [List.append_nil]⟩
  | succ fuel ih =>
    rw [andLoop] at h
    split at h
    · rename_i hand
      obtain ⟨p', rfl, hadvance, hended'⟩ := hended.of_current hand nofun
      rw [hadvance] at h
      obtain ⟨⟨right, p''⟩, hright, hloop⟩ := Option.bind_eq_some_iff.mp h
      obtain ⟨hended'', u, rfl, hu⟩ := hunary p' right p'' hended' hright
      obtain ⟨hrest, t, rfl, ht⟩ := ih hended'' (hnode.and hu) hloop
      refine ⟨hrest, .and :: (u ++ t), by rw [List.cons_append, List.append_assoc], ?_⟩
      rwa [List.append_assoc, List.cons_append] at ht
    · obtain ⟨rfl, rfl⟩ := Prod.mk.inj (Option.some.inj h)
      exact ⟨hended, [], rfl, by rwa [List.append_nil]⟩

theorem andExpression_sound (hunary : Sound .unary depth unary) : Sound .and depth (andExpression unary) := by
  intro p c rest hended h
  obtain ⟨⟨first, p'⟩, hfirst, hloop⟩ := Option.bind_eq_some_iff.mp h
  obtain ⟨hended', s, rfl, hs⟩ := hunary p first p' hended hfirst
  obtain ⟨hrest, t, rfl, ht⟩ := andLoop_sound hunary p'.length hended' hs.single hloop
  exact ⟨hrest, s ++ t, by rw [List.append_assoc], ht⟩

theorem orLoop_sound (hunary : Sound .unary depth unary) (fuel : Nat) {p rest : Parser P} {s : List (Token P)}
    {node c : Condition P} (hended : Ended p) (hnode : Derives .or depth s node)
    (h : orLoop unary fuel node p = some (c, rest)) :
    Ended rest ∧ ∃ t, p = t ++ rest ∧ Derives .or depth (s ++ t) c := by
  induction fuel generalizing p s node with
  | zero =>
    obtain ⟨rfl, rfl⟩ := Prod.mk.inj (Option.some.inj h)
    exact ⟨hended, [], rfl, by rwa [List.append_nil]⟩
  | succ fuel ih =>
    rw [orLoop] at h
    split at h
    · rename_i hor
      obtain ⟨p', rfl, hadvance, hended'⟩ := hended.of_current hor nofun
      rw [hadvance] at h
      obtain ⟨⟨right, p''⟩, hright, hloop⟩ := Option.bind_eq_some_iff.mp h
      obtain ⟨hended'', u, rfl, hu⟩ := andExpression_sound hunary p' right p'' hended' hright
      obtain ⟨hrest, t, rfl, ht⟩ := ih hended'' (hnode.or hu) hloop
      refine ⟨hrest, .or :: (u ++ t), by rw [List.cons_append, List.append_assoc], ?_⟩
      rwa [List.append_assoc, List.cons_append] at ht
    · obtain ⟨rfl, rfl⟩ := Prod.mk.inj (Option.some.inj h)
      exact ⟨hended, [], rfl, by rwa [List.append_nil]⟩

theorem orExpression_sound (hunary : Sound .unary depth unary) : Sound .or depth (orExpression unary) := by
  intro p c rest hended h
  obtain ⟨⟨first, p'⟩, hfirst, hloop⟩ := Option.bind_eq_some_iff.mp h
  obtain ⟨hended', s, rfl, hs⟩ := andExpression_sound hunary p first p' hended hfirst
  obtain ⟨hrest, t, rfl, ht⟩ := orLoop_sound hunary p'.length hended' hs.conjunction hloop
  exact ⟨hrest, s ++ t, by rw [List.append_assoc], ht⟩

theorem operand_sound {p rest : Parser P} {value : Operand P} (hended : Ended p) (h : p.operand = some (value, rest)) :
    Ended rest ∧ p = .operand value :: rest := by
  rw [operand] at h
  split at h
  · rename_i hcurrent
    obtain ⟨p', rfl, hadvance, hended'⟩ := hended.of_current hcurrent nofun
    obtain ⟨rfl, rfl⟩ := Prod.mk.inj (Option.some.inj h)
    rw [hadvance]
    exact ⟨hended', rfl⟩
  · cases h

theorem comparisonFrom_sound (depth : Nat) {left : Operand P} {p rest : Parser P} {c : Condition P} (hended : Ended p)
    (h : comparisonFrom left p = some (c, rest)) :
    Ended rest ∧ ∃ s, p = s ++ rest ∧ Derives .unary depth (.operand left :: s) c := by
  rw [comparisonFrom] at h
  split at h
  · rename_i op hcurrent
    obtain ⟨p', rfl, hadvance, hended'⟩ := hended.of_current hcurrent nofun
    rw [hadvance] at h
    obtain ⟨⟨right, p''⟩, hright, hpair⟩ := Option.map_eq_some_iff.mp h
    obtain ⟨rfl, rfl⟩ := Prod.mk.inj hpair
    obtain ⟨hrest, rfl⟩ := operand_sound hended' hright
    exact ⟨hrest, [.op op, .operand right], rfl, .compare left op right⟩
  · obtain ⟨rfl, rfl⟩ := Prod.mk.inj (Option.some.inj h)
    exact ⟨hended, [], rfl, .truthy left⟩

/-- A comparison; `group` is sound for one level of nesting less. -/
theorem comparison_sound (depth : Nat) {group : Option (Parser P → Option (Condition P × Parser P))}
    (hgroup : ∀ parse ∈ group, ∃ inner, depth = inner + 1 ∧ Sound .or inner parse) :
    Sound .unary depth (comparison group) := by
  intro p c rest hended h
  unfold comparison at h
  split at h
  · rename_i hparen
    obtain ⟨p', rfl, hadvance, hended'⟩ := hended.of_current hparen nofun
    rw [hadvance] at h
    cases group with
    | none => cases h
    | some parse =>
      obtain ⟨inner, rfl, hsound⟩ := hgroup parse rfl
      cases hparse : parse p' with
      | none =>
        simp only [hparse] at h
        cases h
      | some result =>
        obtain ⟨node, p''⟩ := result
        obtain ⟨hended'', s, rfl, hs⟩ := hsound p' node p'' hended' hparse
        simp only [hparse] at h
        split at h
        · rename_i hclose
          obtain ⟨q, rfl, hadvance', hq⟩ := hended''.of_current hclose nofun
          rw [hadvance'] at h
          split at h
          · cases h
          · obtain ⟨rfl, rfl⟩ := Prod.mk.inj (Option.some.inj h)
            exact ⟨hq, Token.leftParen :: (s ++ [Token.rightParen]), by simp, hs.group⟩
        · cases h
  · cases hoperand : p.operand with
    | none =>
      simp only [hoperand] at h
      cases h
    | some result =>
      obtain ⟨left, p'⟩ := result
      simp only [hoperand] at h
      obtain ⟨hended', rfl⟩ := operand_sound hended hoperand
      obtain ⟨hrest, s, rfl, hs⟩ := comparisonFrom_sound depth hended' h
      exact ⟨hrest, .operand left :: s, rfl, hs⟩

theorem unary_sound (depth : Nat) : Sound .unary depth (Parser.unary (P := P) depth) := by
  induction depth with
  | zero =>
    intro p c rest hended h
    rw [Parser.unary] at h
    split at h
    · cases h
    · exact comparison_sound 0 (fun parse hparse => absurd hparse (Option.not_mem_none parse)) p c rest hended h
  | succ depth ih =>
    intro p c rest hended h
    rw [Parser.unary] at h
    split at h
    · rename_i hnot
      obtain ⟨p', rfl, hadvance, hended'⟩ := hended.of_current hnot nofun
      rw [hadvance] at h
      obtain ⟨⟨inner, p''⟩, hinner, hpair⟩ := Option.map_eq_some_iff.mp h
      obtain ⟨rfl, rfl⟩ := Prod.mk.inj hpair
      obtain ⟨hrest, s, rfl, hs⟩ := ih p' inner p'' hended' hinner
      exact ⟨hrest, .not :: s, rfl, hs.not⟩
    · refine comparison_sound _ (fun parse hparse => ?_) p c rest hended h
      obtain rfl := Option.some.inj hparse
      exact ⟨depth, rfl, orExpression_sound ih⟩

end Parser

/-! ### What is derived is parsed -/

/-- The token is a comparison operator. -/
def Token.isOp : Token P → Bool
  | .op _ => true
  | _ => false

namespace Parser
variable {depth : Nat} {c : Condition P} {rest : Parser P}

theorem andLoop_stop {unary : Parser P → Option (Condition P × Parser P)} (fuel : Nat) (h : rest.current ≠ .and) :
    andLoop unary fuel c rest = some (c, rest) := by
  cases fuel with
  | zero => rfl
  | succ fuel =>
    rw [andLoop]
    split
    · rename_i hand
      exact absurd hand h
    · rfl

theorem orLoop_stop {unary : Parser P → Option (Condition P × Parser P)} (fuel : Nat) (h : rest.current ≠ .or) :
    orLoop unary fuel c rest = some (c, rest) := by
  cases fuel with
  | zero => rfl
  | succ fuel =>
    rw [orLoop]
    split
    · rename_i hor
      exact absurd hor h
    · rfl

/-- What the parser does with tokens that derive the condition at the level: at the levels of `and` and `or` it goes on with
the further operands. -/
def Parses (depth : Nat) (s : List (Token P)) (c : Condition P) : Level → Prop
  | .unary => ∀ rest, Ended rest → rest.current.isOp = false → unary depth (s ++ rest) = some (c, rest)
  | .and => ∀ rest, Ended rest → rest.current.isOp = false →
      ∃ n, rest.length ≤ n ∧ andExpression (unary depth) (s ++ rest) = andLoop (unary depth) n c rest
  | .or => ∀ rest, Ended rest → rest.current.isOp = false → rest.current ≠ .and →
      ∃ n, rest.length ≤ n ∧ orExpression (unary depth) (s ++ rest) = orLoop (unary depth) n c rest

@[simp] theorem current_cons (t : Token P) (p : Parser P) : current (t :: p) = t := rfl

theorem unary_operand {value : Operand P} {p : Parser P} (h : p ≠ []) :
    unary depth (.operand value :: p) = comparisonFrom value p := by
  have hoperand : operand (.operand value :: p) = some (value, p) := by
    rw [operand, current_cons, advance_cons h]
  cases depth with
  | zero =>
    rw [unary, current_cons]
    unfold comparison
    rw [current_cons]
    dsimp only
    rw [hoperand]
  | succ depth =>
    rw [unary, current_cons]
    unfold comparison
    rw [current_cons]
    dsimp only
    rw [hoperand]

theorem parses_of_derives {level : Level} {s : List (Token P)} (h : Derives level depth s c) {allowed : Nat}
    (hle : depth ≤ allowed) : Parses allowed s c level := by
  induction h generalizing allowed with
  | truthy value =>
    intro rest hended hop
    rw [List.singleton_append, unary_operand hended.ne_nil, comparisonFrom]
    split
    · rename_i hcurrent
      rw [hcurrent] at hop
      cases hop
    · rfl
  | compare left op right =>
    intro rest hended hop
    have hright : operand (.operand right :: rest) = some (right, rest) := by
      rw [operand, current_cons, advance_cons hended.ne_nil]
    have htokens : [Token.operand left, Token.op op, Token.operand right] ++ rest = Token.operand left :: Token.op op :: Token.operand right :: rest := rfl
    rw [htokens, unary_operand (List.cons_ne_nil _ _), comparisonFrom, current_cons, advance_cons (List.cons_ne_nil _ _)]
    dsimp only
    rw [hright]
    rfl
  | @group depth s c inner ih =>
    intro rest hended hop
    obtain ⟨allowed, rfl⟩ := Nat.exists_eq_succ_of_ne_zero (Nat.ne_zero_of_lt hle)
    have hclose : Ended (.rightParen :: rest : Parser P) := hended.cons nofun
    obtain ⟨n, -, hparse⟩ := ih (Nat.le_of_succ_le_succ hle) (.rightParen :: rest) hclose rfl (by simp)
    rw [orLoop_stop n (by simp)] at hparse
    have htokens : (Token.leftParen :: (s ++ [Token.rightParen])) ++ rest = Token.leftParen :: (s ++ Token.rightParen :: rest) := by simp
    rw [htokens, unary, current_cons]
    unfold comparison
    rw [current_cons]
    dsimp only
    rw [advance_cons (hclose.append inner.finish_notMem).ne_nil, hparse]
    dsimp only
    rw [current_cons, advance_cons hended.ne_nil]
    dsimp only
    split
    · rename_i hcurrent
      rw [hcurrent] at hop
      cases hop
    · rfl
  | @not depth s c inner ih =>
    intro rest hended hop
    obtain ⟨allowed, rfl⟩ := Nat.exists_eq_succ_of_ne_zero (Nat.ne_zero_of_lt hle)
    have hparse := ih (Nat.le_of_succ_le_succ hle) rest hended hop
    rw [List.cons_append, unary, current_cons]
    dsimp only
    rw [advance_cons (hended.append inner.finish_notMem).ne_nil, hparse]
    rfl
  | single inner ih =>
    intro rest hended hop
    have hparse := ih hle rest hended hop
    exact ⟨rest.length, le_rfl, by rw [andExpression, hparse]; rfl⟩
  | @and depth s t left right hleft hright ihleft ihright =>
    intro rest hended hop
    have hnext := hended.append hright.finish_notMem
    obtain ⟨n, hn, hparse⟩ := ihleft hle (.and :: (t ++ rest)) (hnext.cons nofun) rfl
    obtain ⟨n, rfl⟩ := Nat.exists_eq_succ_of_ne_zero (Nat.ne_zero_of_lt hn)
    refine ⟨n, ?_, ?_⟩
    · rw [List.length_cons, List.length_append] at hn
      omega
    · rw [List.append_assoc, List.cons_append, hparse, andLoop, current_cons]
      dsimp only
      rw [advance_cons hnext.ne_nil, ihright hle rest hended hop]
      rfl
  | conjunction inner ih =>
    intro rest hended hop hand
    obtain ⟨n, -, hparse⟩ := ih hle rest hended hop
    rw [andLoop_stop n hand] at hparse
    exact ⟨rest.length, le_rfl, by rw [orExpression, hparse]; rfl⟩
  | @or depth s t left right hleft hright ihleft ihright =>
    intro rest hended hop hand
    have hnext := hended.append hright.finish_notMem
    obtain ⟨n, hn, hparse⟩ := ihleft hle (.or :: (t ++ rest)) (hnext.cons nofun) rfl (by simp)
    obtain ⟨n, rfl⟩ := Nat.exists_eq_succ_of_ne_zero (Nat.ne_zero_of_lt hn)
    obtain ⟨m, -, hright'⟩ := ihright hle rest hended hop
    rw [andLoop_stop m hand] at hright'
    refine ⟨n, ?_, ?_⟩
    · rw [List.length_cons, List.length_append] at hn
      omega
    · rw [List.append_assoc, List.cons_append, hparse, orLoop, current_cons]
      dsimp only
      rw [advance_cons hnext.ne_nil, hright']
      rfl

/-- The parser reaches the end with a condition exactly if the tokens before the end derive it. -/
theorem orExpression_eq_iff {body : List (Token P)} (hbody : Token.finish ∉ body) :
    orExpression (unary depth) (body ++ [Token.finish]) = some (c, [Token.finish]) ↔ Derives .or depth body c := by
  constructor
  · intro h
    obtain ⟨-, s, hs, hderives⟩ := orExpression_sound (unary_sound depth) (body ++ [Token.finish]) c [Token.finish] ⟨body, rfl, hbody⟩ h
    obtain rfl := List.append_cancel_right hs
    exact hderives
  · intro h
    obtain ⟨n, -, hparse⟩ := parses_of_derives h le_rfl [.finish] .finish rfl (by simp)
    rw [hparse, orLoop_stop n (by simp)]

end Parser

/-! ### One tree -/

theorem Derives.mono {level : Level} {depth depth' : Nat} {s : List (Token P)} {c : Condition P}
    (h : Derives level depth s c) (hle : depth ≤ depth') : Derives level depth' s c := by
  induction h generalizing depth' with
  | truthy operand => exact .truthy operand
  | compare left op right => exact .compare left op right
  | group inner ih =>
    obtain ⟨depth', rfl⟩ := Nat.exists_eq_succ_of_ne_zero (Nat.ne_zero_of_lt hle)
    exact (ih (Nat.le_of_succ_le_succ hle)).group
  | not inner ih =>
    obtain ⟨depth', rfl⟩ := Nat.exists_eq_succ_of_ne_zero (Nat.ne_zero_of_lt hle)
    exact (ih (Nat.le_of_succ_le_succ hle)).not
  | single inner ih => exact (ih hle).single
  | and hleft hright ihleft ihright => exact (ihleft hle).and (ihright hle)
  | conjunction inner ih => exact (ih hle).conjunction
  | or hleft hright ihleft ihright => exact (ihleft hle).or (ihright hle)

theorem Derives.unique {depth depth' : Nat} {s : List (Token P)} {c c' : Condition P} (h : Derives .or depth s c)
    (h' : Derives .or depth' s c') : c = c' := by
  have hparse := (Parser.orExpression_eq_iff h.finish_notMem).mpr (h.mono (Nat.le_max_left depth depth'))
  have hparse' := (Parser.orExpression_eq_iff h.finish_notMem).mpr (h'.mono (Nat.le_max_right depth depth'))
  rw [hparse] at hparse'
  exact (Prod.mk.inj (Option.some.inj hparse')).1

/-! ### Rendering -/

/-- The tokens of a condition with every operand of `or`, `and` and `not` in parentheses. -/
def Condition.render : Condition P → List (Token P)
  | .or left right => .leftParen :: (left.render ++ [.rightParen]) ++ .or :: .leftParen :: (right.render ++ [.rightParen])
  | .and left right => .leftParen :: (left.render ++ [.rightParen]) ++ .and :: .leftParen :: (right.render ++ [.rightParen])
  | .not inner => .not :: .leftParen :: (inner.render ++ [.rightParen])
  | .compare left op right => [.operand left, .op op, .operand right]
  | .truthy operand => [.operand operand]

/-- How deeply the negations and parentheses of the rendering are nested. -/
def Condition.depth : Condition P → Nat
  | .or left right | .and left right => max left.depth right.depth + 1
  | .not inner => inner.depth + 2
  | .compare .. | .truthy _ => 0

theorem Condition.derives_render (c : Condition P) : Derives .or c.depth c.render c := by
  induction c with
  | or left right ihleft ihright =>
    have hleft := (ihleft.mono (Nat.le_max_left left.depth right.depth)).group
    have hright := (ihright.mono (Nat.le_max_right left.depth right.depth)).group
    exact hleft.single.conjunction.or hright.single
  | and left right ihleft ihright =>
    have hleft := (ihleft.mono (Nat.le_max_left left.depth right.depth)).group
    have hright := (ihright.mono (Nat.le_max_right left.depth right.depth)).group
    exact (hleft.single.and hright).conjunction
  | not inner ih => exact ih.group.not.single.conjunction
  | compare left op right => exact (Derives.compare left op right).single.conjunction
  | truthy operand => exact (Derives.truthy operand).single.conjunction

/-! ### What the tokenizer produces -/

theorem wordToken_ne_finish (word : Str) : wordToken P word ≠ some .finish := by
  unfold wordToken
  split <;> nofun

theorem symbolToken_ne_finish {s : Str} {part : Token P × Nat} (h : symbolToken P s = some part) : part.1 ≠ .finish := by
  unfold symbolToken at h
  split at h <;> cases h <;> nofun

theorem nextToken_ne_finish {c : Char} {s rest : Str} {t : Token P} (h : nextToken P c s = some (t, rest)) : t ≠ .finish := by
  have hoperand {part : Option (Str × Str)} {value : Str → Operand P}
      (hpart : (part.map fun part => (Token.operand (value part.1), part.2)) = some (t, rest)) : t ≠ .finish := by
    obtain ⟨part, -, hpair⟩ := Option.map_eq_some_iff.mp hpart
    obtain ⟨rfl, -⟩ := Prod.mk.inj hpair
    nofun
  unfold nextToken at h
  split at h
  · exact hoperand h
  split at h
  · exact hoperand h
  split at h
  · exact hoperand h
  split at h
  · obtain ⟨rfl, -⟩ := Prod.mk.inj (Option.some.inj h)
    nofun
  split at h
  · obtain ⟨rfl, -⟩ := Prod.mk.inj (Option.some.inj h)
    nofun
  split at h
  · obtain ⟨value, -, hpair⟩ := Option.map_eq_some_iff.mp h
    obtain ⟨rfl, -⟩ := Prod.mk.inj hpair
    nofun
  split at h
  · obtain ⟨part, hpart, hpair⟩ := Option.map_eq_some_iff.mp h
    obtain ⟨rfl, -⟩ := Prod.mk.inj hpair
    exact symbolToken_ne_finish hpart
  split at h
  case isFalse => cases h
  · obtain ⟨rfl, -⟩ := Prod.mk.inj (Option.some.inj h)
    intro hword
    cases hfound : wordToken P ((c :: s).takeWhile fun d => P.isAlphanumeric d || d == '_' || d == '.') with
    | none =>
      rw [hfound] at hword
      cases hword
    | some token =>
      rw [hfound, Option.getD_some] at hword
      exact wordToken_ne_finish _ (hfound.trans (congrArg some hword))

theorem tokenize_ended {input : Str} {tokens : List (Token P)} (h : tokenize P input = some tokens) : Ended tokens := by
  have hloop (fuel : Nat) (s : Str) (tokens : List (Token P)) (h : tokenizeLoop P fuel s = some tokens) : Ended tokens := by
    induction fuel generalizing s tokens with
    | zero =>
      cases s with
      | nil =>
        obtain rfl := Option.some.inj h
        exact .finish
      | cons c s => cases h
    | succ fuel ih =>
      cases s with
      | nil =>
        obtain rfl := Option.some.inj h
        exact .finish
      | cons c s =>
        rw [tokenizeLoop] at h
        split_ifs at h with hspace
        · exact ih s tokens h
        · cases hnext : nextToken P c s with
          | none =>
            simp only [hnext] at h
            cases h
          | some result =>
            obtain ⟨t, rest⟩ := result
            simp only [hnext] at h
            obtain ⟨tokens', htokens, rfl⟩ := Option.map_eq_some_iff.mp h
            exact (ih rest tokens' htokens).cons (nextToken_ne_finish hnext)
  exact hloop _ _ _ h

theorem tokenize_of_trim_eq_nil {input : Str} {tokens : List (Token P)} (htrim : input.trim = [])
    (h : tokenize P input = some tokens) : tokens = [.finish] := by
  have hspaces : ∀ c ∈ input, Str.isWhitespace c = true := by
    intro c hc
    have hdrop : ∀ d ∈ (input.dropWhile Str.isWhitespace).reverse, Str.isWhitespace d = true :=
      List.dropWhile_eq_nil_iff.mp (List.reverse_eq_nil_iff.mp htrim)
    rw [← List.takeWhile_append_dropWhile (p := Str.isWhitespace) (l := input)] at hc
    rcases List.mem_append.mp hc with hc | hc
    · exact List.mem_takeWhile_imp hc
    · exact hdrop c (List.mem_reverse.mpr hc)
  have hloop (s : Str) (hs : ∀ c ∈ s, Str.isWhitespace c = true) : tokenizeLoop P s.length s = some [.finish] := by
    induction s with
    | nil => rfl
    | cons c s ih =>
      rw [List.length_cons, tokenizeLoop, if_pos (hs c List.mem_cons_self)]
      exact ih fun d hd => hs d (List.mem_cons_of_mem _ hd)
  exact (Option.some.inj ((hloop input hspaces).symm.trans h)).symm

end Stonemite.Triggers
