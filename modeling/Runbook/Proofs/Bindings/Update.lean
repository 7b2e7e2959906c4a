import Runbook.Proofs.Bindings
import Mathlib.Data.List.Induction

/-! # Pairs set in turn

Setting some pairs in turn sets each name to the last of its values. Pairs that are set in turn to begin with make bindings
of each name once, in the order of their first places (`Bindings.ofList_eq`); to set these bindings is to set the pairs
(`Bindings.update_ofList`). -/

namespace Runbook

/-! ### Items without those that are there before -/

section EraseDups
variable {α : Type} [BEq α] [LawfulBEq α]

theorem eraseDups_concat (l : List α) (a : α) :
    (l ++ [a]).eraseDups = if a ∈ l then l.eraseDups else l.eraseDups ++ [a] := by
  rw [List.eraseDups_append]
  by_cases h : a ∈ l
  · simp [List.removeAll, h]
  · simp [List.removeAll, h, List.eraseDups_cons]

theorem nodup_eraseDups (l : List α) : l.eraseDups.Nodup := by
  induction l using List.reverseRecOn with
  | nil => exact List.nodup_nil
  | append_singleton l a ih =>
    rw [eraseDups_concat]
    split
    · exact ih
    · rename_i h
      rw [List.nodup_append]
      refine ⟨ih, List.nodup_singleton a, ?_⟩
      rintro b hb _ (_ | ⟨_, ⟨⟩⟩) rfl
      exact h (List.mem_eraseDups.mp hb)

end EraseDups

namespace Bindings

variable {b : Bindings} {l : List (Text × Text)} {n v : Text}

/-! ### One pair after the other -/

theorem update_append (b : Bindings) (l l' : List (Text × Text)) : b.update (l ++ l') = (b.update l).update l' :=
  List.foldl_append

theorem ofList_concat (l : List (Text × Text)) (p : Text × Text) : ofList (l ++ [p]) = set p.1 p.2 (ofList l) :=
  update_append [] l [p]

theorem nodup_update (hb : b.names.Nodup) (l : List (Text × Text)) : (b.update l).names.Nodup := by
  induction l generalizing b with
  | nil => exact hb
  | cons p l ih => exact ih (nodup_names_set hb)

theorem nodup_ofList (l : List (Text × Text)) : (ofList l).names.Nodup :=
  nodup_update (b := []) List.nodup_nil l

/-! ### The order of setting -/

theorem update_set_of_not_mem (hn : n ∈ b.names) (hl : n ∉ names l) : (set n v b).update l = set n v (b.update l) := by
  induction l generalizing b with
  | nil => rfl
  | cons p l ih =>
    rw [names_cons, List.mem_cons, not_or] at hl
    have hkeep : n ∈ (set p.1 p.2 b).names := by
      rw [names_set]
      split
      · exact hn
      · exact List.mem_append_left _ hn
    show (set p.1 p.2 (set n v b)).update l = set n v ((set p.1 p.2 b).update l)
    rw [set_comm (Ne.symm hl.1) hn, ih hkeep hl.2]

theorem update_set (hl : (names l).Nodup) : b.update (set n v l) = set n v (b.update l) := by
  induction l generalizing b with
  | nil => rfl
  | cons p l ih =>
    obtain ⟨hp, hl⟩ := List.nodup_cons.mp hl
    by_cases hpn : p.1 = n
    · subst hpn
      rw [set, if_pos rfl]
      show (set p.1 v b).update l = set p.1 v ((set p.1 p.2 b).update l)
      have hmem : p.1 ∈ (set p.1 p.2 b).names := by
        rw [names_set]
        split
        · assumption
        · exact List.mem_append_right _ List.mem_cons_self
      rw [← set_set p.1 v p.2 b, update_set_of_not_mem hmem hp]
    · rw [set, if_neg hpn]
      exact ih hl

/-- Setting some pairs in turn is setting the bindings that they make. -/
theorem update_ofList (b : Bindings) (l : List (Text × Text)) : b.update (ofList l) = b.update l := by
  induction l using List.reverseRecOn with
  | nil => rfl
  | append_singleton l p ih =>
    rw [ofList_concat, update_set (nodup_ofList l), ih, update_append]
    rfl

/-! ### Which bindings pairs make -/

theorem names_map (l : List Text) (f : Text → Text) : names (l.map fun n => (n, f n)) = l := by
  simp [names, Function.comp_def]

/-- Setting a name in bindings in the order of some names. -/
theorem set_map_eraseDups (keys : List Text) (f : Text → Text) (key value : Text) :
    set key value (keys.eraseDups.map fun n => (n, f n)) =
      (keys ++ [key]).eraseDups.map fun n => (n, if key = n then value else f n) := by
  by_cases hkey : key ∈ keys
  · have hmem : key ∈ names (keys.eraseDups.map fun n => (n, f n)) := by
      rw [names_map]
      exact List.mem_eraseDups.mpr hkey
    rw [set_eq_map (by rw [names_map]; exact nodup_eraseDups keys) hmem, eraseDups_concat, if_pos hkey, List.map_map]
    exact List.map_congr_left fun n _ => by simp only [Function.comp_apply, eq_comm]
  · have hnew : key ∉ names (keys.eraseDups.map fun n => (n, f n)) := by
      rw [names_map]
      exact fun hmem => hkey (List.mem_eraseDups.mp hmem)
    rw [set_of_not_mem hnew, eraseDups_concat, if_neg hkey, List.map_append, List.map_singleton, if_pos rfl]
    refine congrArg (· ++ _) (List.map_congr_left fun n hn => ?_)
    rw [if_neg]
    rintro rfl
    exact hkey (List.mem_eraseDups.mp hn)

/-- The last value of a name among some pairs. -/
def lastOf (name : Text) (l : List (Text × Text)) : Text :=
  ((l.filter fun p => p.1 = name).getLast?.map Prod.snd).getD []

theorem lastOf_concat (n : Text) (l : List (Text × Text)) (p : Text × Text) :
    lastOf n (l ++ [p]) = if p.1 = n then p.2 else lastOf n l := by
  by_cases hp : p.1 = n
  · simp [lastOf, List.filter_append, hp]
  · simp [lastOf, List.filter_append, hp]

/-- The pairs make bindings of each name once, in the order of their first places, with its last value. -/
theorem ofList_eq (l : List (Text × Text)) : ofList l = (l.map Prod.fst).eraseDups.map fun n => (n, lastOf n l) := by
  induction l using List.reverseRecOn with
  | nil => rfl
  | append_singleton l p ih =>
    rw [ofList_concat, ih, set_map_eraseDups, List.map_append]
    exact List.map_congr_left fun n _ => by rw [lastOf_concat]

end Bindings

end Runbook
