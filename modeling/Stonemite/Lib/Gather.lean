import Stonemite.Lib.TreeMap

/-!
# Gathering values by key

`gatherInto` adds a value to what a map has under its key. A list that is gathered holds under each key what the values of the
key fold to, in any order of the list if the fold of a key does not depend on it.
-/

namespace Std.ExtTreeMap

variable {α β γ : Type} [Ord α] [TransOrd α] [LawfulEqOrd α]

/-- The value of the item's key takes the item in. -/
def gatherInto (key : γ → α) (f : Option β → γ → β) (m : ExtTreeMap α β) (x : γ) : ExtTreeMap α β :=
  m.insert (key x) (f m[key x]? x)

variable {key : γ → α} {f : Option β → γ → β} {m : ExtTreeMap α β} {l l' : List γ}

section
variable [DecidableEq α]

theorem getElem?_foldl_gatherInto (a : α) : (l.foldl (gatherInto key f) m)[a]? =
    (l.filter fun x => key x = a).foldl (fun o x => some (f o x)) m[a]? := by
  induction l generalizing m with
  | nil => rfl
  | cons x l ih =>
    rw [List.foldl_cons, ih, gatherInto, getElem?_insert_ite]
    by_cases h : key x = a
    · rw [if_pos h, List.filter_cons, if_pos (decide_eq_true h), List.foldl_cons, h]
    · rw [if_neg h, List.filter_cons, if_neg (by simpa using h)]

theorem gatherInto_comm (hf : ∀ o x y, f (some (f o x)) y = f (some (f o y)) x) (x y : γ) :
    gatherInto key f (gatherInto key f m x) y = gatherInto key f (gatherInto key f m y) x := by
  refine ext_getElem? fun a => ?_
  simp only [gatherInto, getElem?_insert_ite]
  by_cases hxy : key x = key y
  · simp only [hxy, if_true, hf _ x y]
    split_ifs <;> rfl
  · simp only [hxy, Ne.symm hxy, if_false]
    by_cases hx : key x = a
    · simp only [hx, if_true]
      rw [if_neg fun hy => hxy (hx.trans hy.symm)]
    · simp only [hx, if_false]

theorem foldl_gatherInto_perm (hf : ∀ o x y, f (some (f o x)) y = f (some (f o y)) x) (h : l.Perm l') :
    l.foldl (gatherInto key f) m = l'.foldl (gatherInto key f) m :=
  h.foldl_eq' (fun x _ y _ m => @gatherInto_comm _ _ _ _ _ _ key f m _ hf x y) m

end

end Std.ExtTreeMap
