import Mathlib.Data.List.Nodup
import Mathlib.Data.String.Basic
import Stepwise.Value.Heap

/-!
# Keys of maps

Whatever is done to a heap, each of its maps has its keys in order, hence no
key twice. So a look-up finds the only value that a key has.
-/

namespace Stepwise

namespace Key

theorem not_before_self (key : Key) : ¬ key.before key = true := by
  cases key <;> simp [before]

/-- Of two keys one is before the other. -/
theorem before_of_not_before {a b : Key} (hne : a ≠ b) (hab : ¬ a.before b = true) :
    b.before a = true := by
  cases a <;> cases b <;> simp only [before, decide_eq_true_eq, not_lt, not_true] at hab ⊢
  case int.int m n =>
    exact lt_of_le_of_ne hab fun he => hne (congrArg int (Int64.toInt_inj.mp he.symm))
  case str.str s t => exact lt_of_le_of_ne hab fun he => hne (congrArg str he.symm)
  case bool.bool m n => cases m <;> cases n <;> simp_all

theorem before_trans {a b c : Key} (hab : a.before b = true) (hbc : b.before c = true) :
    a.before c = true := by
  cases a <;> cases b <;> cases c <;>
    simp only [before, decide_eq_true_eq, reduceCtorEq] at hab hbc ⊢
  case int.int.int => exact lt_trans hab hbc
  case str.str.str => exact lt_trans hab hbc
  case bool.bool.bool => simp_all

end Key

/-- Entries stand in the order of their keys. -/
def InKeyOrder (entries : List (Key × Val)) : Prop :=
  (entries.map (·.1)).Pairwise fun a b => a.before b = true

namespace InKeyOrder

variable {entries : List (Key × Val)}

/-- No key has two entries then. -/
theorem nodup (h : InKeyOrder entries) : (entries.map (·.1)).Nodup :=
  List.Pairwise.imp (fun hab => by rintro rfl; exact Key.not_before_self _ hab) h

theorem mem_keys_putSorted {key k : Key} {value : Val}
    (hk : k ∈ (Stepwise.putSorted Key.before key value entries).map (·.1)) :
    k = key ∨ k ∈ entries.map (·.1) := by
  fun_induction Stepwise.putSorted Key.before key value entries with
  | case1 => exact .inl (List.mem_singleton.mp hk)
  | case2 v rest => exact .inr hk
  | case3 k' v rest hne hbefore => exact List.mem_cons.mp hk
  | case4 k' v rest hne hbefore ih =>
    rcases List.mem_cons.mp hk with rfl | hk
    · exact .inr List.mem_cons_self
    · exact (ih hk).imp_right (List.mem_cons_of_mem _)

theorem putSorted (h : InKeyOrder entries) (key : Key) (value : Val) :
    InKeyOrder (putSorted Key.before key value entries) := by
  unfold InKeyOrder at h ⊢
  fun_induction Stepwise.putSorted Key.before key value entries with
  | case1 => exact List.pairwise_singleton _ _
  | case2 v rest => exact h
  | case3 k v rest hne hbefore =>
    refine List.pairwise_cons.mpr ⟨List.forall_mem_cons.mpr ⟨hbefore, fun k' hk' => ?_⟩, h⟩
    exact Key.before_trans hbefore ((List.pairwise_cons.mp h).1 k' hk')
  | case4 k v rest hne hbefore ih =>
    obtain ⟨hk, hrest⟩ := List.pairwise_cons.mp h
    refine List.pairwise_cons.mpr ⟨fun k' hk' => ?_, ih hrest⟩
    rcases mem_keys_putSorted hk' with rfl | hk'
    · exact Key.before_of_not_before (Ne.symm hne) hbefore
    · exact hk k' hk'

theorem filter (h : InKeyOrder entries) (keep : Key × Val → Bool) :
    InKeyOrder (entries.filter keep) :=
  List.Pairwise.sublist (List.filter_sublist.map _) h

end InKeyOrder

namespace Heap

/-- The keys of a map. -/
def keys (h : Heap) (ref : Nat) : List Key := (h.entries ref).map (·.1)

/-- No map has two entries for one key. -/
def Keyed (h : Heap) : Prop := ∀ ref, (h.keys ref).Nodup

/-- Heaps that can be made, beginning with nothing. -/
inductive Made : Heap → Prop where
  /-- Nothing has been made yet. -/
  | empty : Made {}
  /-- An array is added. -/
  | newArray {h : Heap} (items : List Val) : Made h → Made (h.newArray items).2
  /-- A map is added. -/
  | newMap {h : Heap} : Made h → Made h.newMap.2
  /-- An object is added. -/
  | newObject {h : Heap} (typeName : String) : Made h → Made (h.newObject typeName).2
  /-- An array gets other elements. -/
  | setItems {h : Heap} (ref : Nat) (items : List Val) : Made h → Made (h.setItems ref items)
  /-- A key of a map gets a value. -/
  | putEntry {h : Heap} (ref : Nat) (key : Key) (value : Val) :
    Made h → Made (h.putEntry ref key value)
  /-- A key of a map is removed. -/
  | removeEntry {h : Heap} (ref : Nat) (key : Key) : Made h → Made (h.removeEntry ref key)
  /-- A field of an object gets a value. -/
  | putField {h : Heap} (ref : Nat) (name : String) (value : Val) :
    Made h → Made (h.putField ref name value)

variable {h : Heap} {ref : Nat} {key : Key} {x : Val}

theorem inKeyOrder_setEntries (horder : ∀ ref, InKeyOrder (h.entries ref))
    {entries : List (Key × Val)} (hentries : InKeyOrder entries) (other : Nat) :
    InKeyOrder ((h.setEntries ref entries).entries other) := by
  have hother := horder other
  unfold Heap.entries setEntries at *
  simp only [Array.getD_eq_getD_getElem?, Array.getElem?_setIfInBounds] at hother ⊢
  split_ifs
  · exact hentries
  · exact List.Pairwise.nil
  · exact hother

theorem inKeyOrder_newMap (horder : ∀ ref, InKeyOrder (h.entries ref)) (other : Nat) :
    InKeyOrder (h.newMap.2.entries other) := by
  have hother := horder other
  unfold Heap.entries newMap at *
  simp only [Array.getD_eq_getD_getElem?, Array.getElem?_push] at hother ⊢
  split_ifs
  · exact List.Pairwise.nil
  · exact hother

/-- Every heap that can be made has its entries in order. -/
theorem Made.inKeyOrder (hmade : h.Made) : ∀ ref, InKeyOrder (h.entries ref) := by
  induction hmade with
  | empty => exact fun _ => List.Pairwise.nil
  | newArray | newObject | setItems | putField => assumption
  | newMap _ ih => exact inKeyOrder_newMap ih
  | putEntry ref key value _ ih => exact inKeyOrder_setEntries ih ((ih ref).putSorted key value)
  | removeEntry ref key _ ih => exact inKeyOrder_setEntries ih ((ih ref).filter _)

theorem Made.keyed (hmade : h.Made) : h.Keyed := fun ref => (hmade.inKeyOrder ref).nodup

theorem mem_keys (hx : (key, x) ∈ h.entries ref) : key ∈ h.keys ref := List.mem_map_of_mem hx

theorem mem_of_lookup (hx : (h.entries ref).lookup key = some x) : (key, x) ∈ h.entries ref := by
  obtain ⟨before, after, hsplit, -⟩ := List.lookup_eq_some_iff.mp hx
  rw [hsplit]
  exact List.mem_append_right _ List.mem_cons_self

/-- A key that a map has is found. -/
theorem exists_lookup (hkey : key ∈ h.keys ref) : ∃ x, (h.entries ref).lookup key = some x := by
  obtain ⟨entry, hentry, rfl⟩ := List.mem_map.mp hkey
  exact Option.isSome_iff_exists.mp (List.lookup_isSome_iff.mpr ⟨entry, hentry, beq_self_eq_true _⟩)

/-- It is found with the value that it has. -/
theorem Keyed.lookup_of_mem (hkeyed : h.Keyed) (hx : (key, x) ∈ h.entries ref) :
    (h.entries ref).lookup key = some x := by
  obtain ⟨y, hy⟩ := exists_lookup (mem_keys hx)
  have he : (key, y) = (key, x) := List.inj_on_of_nodup_map (hkeyed ref) (mem_of_lookup hy) hx rfl
  rw [hy, (Prod.mk.inj he).2]

end Heap

end Stepwise
