import Mathlib.Data.Finset.Card
import Mathlib.Data.List.ProdSigma
import Mathlib.Data.Nat.Find
import Stepwise.Proofs.Value.Keys
import Stepwise.Proofs.Value.Walk
import Stepwise.Value.Equality

/-!
# Equality is bisimilarity

Two values are alike if no path of positions and keys tells them apart: as far
as it can be followed from both, it leads to arrays of one length, to maps
with the same keys, to one object, or to the same scalar or exception.

The comparison takes two collections that it is already comparing as equal,
and forgets that it did when it is done with them. No difference is lost this
way: what a shortest path to a difference leads through is farther from its
own differences than what is left of the path.
-/

namespace Stepwise

/-- A step into a collection. -/
inductive Hop where
  /-- To the element at a position. -/
  | item (index : Nat)
  /-- To the value of a key. -/
  | entry (key : Key)

/-- What shows of a value before one looks inside. -/
inductive Face where
  /-- A scalar or an exception shows as what it is. -/
  | plain (value : Val)
  /-- An array shows its length. -/
  | array (length : Nat)
  /-- A map shows its keys. -/
  | map (keys : Finset Key)
  /-- An object shows which one it is. -/
  | object (ref : Nat)

namespace Heap

/-- Where a step leads, if it can be taken. -/
def hop? (h : Heap) : Val → Hop → Option Val
  | .array ref, .item index => (h.items ref)[index]?
  | .map ref, .entry key => (h.entries ref).lookup key
  | _, _ => none

/-- Where a path leads, if it can be followed. -/
def follow? (h : Heap) : Val → List Hop → Option Val
  | v, [] => some v
  | v, hop :: path => (h.hop? v hop).bind (h.follow? · path)

/-- What shows of a value. -/
def face (h : Heap) : Val → Face
  | .array ref => .array (h.items ref).length
  | .map ref => .map (h.keys ref).toFinset
  | .object _ ref => .object ref
  | v => .plain v

/-- A path leads from two values to things that look different. -/
def ToldApart (h : Heap) (path : List Hop) (v w : Val) : Prop :=
  ∃ x y, h.follow? v path = some x ∧ h.follow? w path = some y ∧ h.face x ≠ h.face y

/-- No path tells two values apart. -/
def Alike (h : Heap) (v w : Val) : Prop := ∀ path, ¬ h.ToldApart path v w

/-- No path leads from a value to a double. -/
def FloatFree (h : Heap) (v : Val) : Prop := ∀ path x, h.follow? v path ≠ some (.float x)

variable {h : Heap} {v w : Val}

theorem follow?_cons {hop : Hop} {x : Val} (hx : h.hop? v hop = some x) (path : List Hop) :
    h.follow? v (hop :: path) = h.follow? x path := by
  rw [follow?, hx, Option.bind_some]

theorem follow?_cons_eq_some {hop : Hop} {path : List Hop} {z : Val}
    (hz : h.follow? v (hop :: path) = some z) :
    ∃ x, h.hop? v hop = some x ∧ h.follow? x path = some z :=
  Option.bind_eq_some_iff.mp hz

/-- Doubles are not behind a step either. -/
theorem FloatFree.hop (hv : h.FloatFree v) {hop : Hop} {x : Val} (hx : h.hop? v hop = some x) :
    h.FloatFree x := fun path y hy => hv (hop :: path) y ((follow?_cons hx path).trans hy)

theorem FloatFree.ne_float (hv : h.FloatFree v) (x : Float) : v ≠ .float x :=
  fun he => hv [] x (congrArg some he)

/-- What tells apart the values behind a step tells apart those before it. -/
theorem ToldApart.cons {path : List Hop} {hop : Hop} {x y : Val} (hxy : h.ToldApart path x y)
    (hx : h.hop? v hop = some x) (hy : h.hop? w hop = some y) :
    h.ToldApart (hop :: path) v w := by
  obtain ⟨x', y', hx', hy', hne⟩ := hxy
  exact ⟨x', y', (follow?_cons hx path).trans hx', (follow?_cons hy path).trans hy', hne⟩

theorem toldApart_cons {path : List Hop} {hop : Hop} (hvw : h.ToldApart (hop :: path) v w) :
    ∃ x y, h.hop? v hop = some x ∧ h.hop? w hop = some y ∧ h.ToldApart path x y := by
  obtain ⟨x', y', hx', hy', hne⟩ := hvw
  obtain ⟨x, hx, hx'⟩ := follow?_cons_eq_some hx'
  obtain ⟨y, hy, hy'⟩ := follow?_cons_eq_some hy'
  exact ⟨x, y, hx, hy, x', y', hx', hy', hne⟩

theorem toldApart_nil : h.ToldApart [] v w ↔ h.face v ≠ h.face w := by
  constructor
  · rintro ⟨_, _, hx, hy, hne⟩
    cases hx
    cases hy
    exact hne
  · exact fun hne => ⟨v, w, rfl, rfl, hne⟩

theorem not_toldApart_self (path : List Hop) : ¬ h.ToldApart path v v := by
  rintro ⟨x, y, hx, hy, hne⟩
  rw [hx] at hy
  exact hne (congrArg h.face (Option.some.inj hy))

/-- Steps lead from arrays to their elements and from maps to the values of
their keys. -/
theorem hop?_cases {hop : Hop} {x : Val} (hx : h.hop? v hop = some x) :
    (∃ ref index, v = .array ref ∧ hop = .item index ∧ (h.items ref)[index]? = some x) ∨
      ∃ ref key, v = .map ref ∧ hop = .entry key ∧ (h.entries ref).lookup key = some x := by
  unfold hop? at hx
  split at hx
  · exact .inl ⟨_, _, rfl, rfl, hx⟩
  · exact .inr ⟨_, _, rfl, rfl, hx⟩
  · exact nomatch hx

theorem face_eq_array {n : Nat} (hw : h.face w = .array n) :
    ∃ ref, w = .array ref ∧ (h.items ref).length = n := by
  cases w <;> simp_all [face]

theorem face_eq_map {names : Finset Key} (hw : h.face w = .map names) :
    ∃ ref, w = .map ref ∧ (h.keys ref).toFinset = names := by
  cases w <;> simp_all [face]

/-- Two values that look the same offer the same steps. -/
theorem exists_hop_of_face_eq (hface : h.face v = h.face w) {hop : Hop} {x : Val}
    (hx : h.hop? v hop = some x) : ∃ y, h.hop? w hop = some y := by
  obtain ⟨a, index, rfl, rfl, hx⟩ | ⟨a, key, rfl, rfl, hx⟩ := hop?_cases hx
  · obtain ⟨b, rfl, hlength⟩ := face_eq_array hface.symm
    have hlt : index < (h.items b).length := hlength ▸ (List.getElem?_eq_some_iff.mp hx).1
    exact ⟨(h.items b)[index], List.getElem?_eq_getElem hlt⟩
  · obtain ⟨b, rfl, hkeys⟩ := face_eq_map hface.symm
    have hkey : key ∈ h.keys b := by
      rw [← List.mem_toFinset, hkeys, List.mem_toFinset]
      exact mem_keys (mem_of_lookup hx)
    exact exists_lookup hkey

namespace Alike

theorem face_eq (hvw : h.Alike v w) : h.face v = h.face w :=
  not_not.mp fun hne => hvw [] (toldApart_nil.mpr hne)

/-- Behind a common step alike values are alike. -/
theorem hop (hvw : h.Alike v w) {hop : Hop} {x y : Val} (hx : h.hop? v hop = some x)
    (hy : h.hop? w hop = some y) : h.Alike x y := fun _ hxy => hvw _ (hxy.cons hx hy)

theorem refl (v : Val) : h.Alike v v := not_toldApart_self

theorem symm (hvw : h.Alike v w) : h.Alike w v := by
  rintro path ⟨x, y, hx, hy, hne⟩
  exact hvw path ⟨y, x, hy, hx, hne.symm⟩

/-- From alike values a path leads to alike values. -/
theorem follow : ∀ {path : List Hop} {v w x : Val}, h.Alike v w → h.follow? v path = some x →
    ∃ y, h.follow? w path = some y ∧ h.Alike x y
  | [], _, w, _, hvw, hx => ⟨w, rfl, Option.some.inj hx ▸ hvw⟩
  | hop :: path, _, _, _, hvw, hx => by
    obtain ⟨v', hv', hx⟩ := follow?_cons_eq_some hx
    obtain ⟨w', hw'⟩ := exists_hop_of_face_eq hvw.face_eq hv'
    rw [follow?_cons hw']
    exact follow (hvw.hop hv' hw') hx

theorem trans {u : Val} (hvw : h.Alike v w) (hwu : h.Alike w u) : h.Alike v u := by
  rintro path ⟨x, z, hx, hz, hne⟩
  obtain ⟨y, hy, hxy⟩ := hvw.follow hx
  have hyz : h.face y = h.face z := not_not.mp fun hyz => hwu path ⟨y, z, hy, hz, hyz⟩
  exact hne (hxy.face_eq.trans hyz)

end Alike

end Heap

namespace Pairing

/-- The one collection of a pairing. -/
def left : Pairing → Val
  | .arrays a _ => .array a
  | .maps a _ => .map a

/-- The other collection of a pairing. -/
def right : Pairing → Val
  | .arrays _ b => .array b
  | .maps _ b => .map b

/-- The pairing of two collections of one kind. -/
def of? : Val → Val → Option Pairing
  | .array a, .array b => some (.arrays a b)
  | .map a, .map b => some (.maps a b)
  | _, _ => none

theorem cases_of (v w : Val) :
    (∃ p : Pairing, v = p.left ∧ w = p.right) ∨ of? v w = none := by
  unfold of?
  split
  · exact .inl ⟨.arrays _ _, rfl, rfl⟩
  · exact .inl ⟨.maps _ _, rfl, rfl⟩
  · exact .inr rfl

end Pairing

namespace Heap

variable {h : Heap} {v w : Val}

/-- Two values that are not collections of one kind have no step in common. -/
theorem no_common_hop (hflat : Pairing.of? v w = none) {hop : Hop} {x y : Val}
    (hx : h.hop? v hop = some x) : h.hop? w hop ≠ some y := by
  intro hy
  obtain ⟨a, index, rfl, rfl, -⟩ | ⟨a, key, rfl, rfl, -⟩ := hop?_cases hx
  · obtain ⟨b, _, rfl, -, -⟩ | ⟨_, _, -, hhop, -⟩ := hop?_cases hy
    · exact nomatch hflat
    · exact nomatch hhop
  · obtain ⟨_, _, -, hhop, -⟩ | ⟨b, _, rfl, -, -⟩ := hop?_cases hy
    · exact nomatch hhop
    · exact nomatch hflat

/-- They are equal if they look the same. -/
theorem equalUnder_flat (hflat : Pairing.of? v w = none) (hv : ∀ x, v ≠ .float x)
    (hw : ∀ x, w ≠ .float x) (fuel : Nat) (visiting : List Pairing) :
    h.equalUnder fuel visiting v w = true ↔ h.face v = h.face w := by
  cases v <;> cases w <;> simp_all [equalUnder, face, Pairing.of?]

theorem equalUnder_zero (p : Pairing) (visiting : List Pairing) :
    h.equalUnder 0 visiting p.left p.right = true := by
  cases p <;> rfl

/-- Elements are compared position by position. -/
theorem all_items_iff {a b : Nat} {same : Val → Val → Bool} :
    (((h.items a).zip (h.items b)).all fun (x, y) => same x y) = true ↔
      ∀ hop x y, h.hop? (.array a) hop = some x → h.hop? (.array b) hop = some y →
        same x y = true := by
  rw [List.all_eq_true]
  constructor
  · intro hall hop x y hx hy
    obtain ⟨_, index, he, rfl, hx⟩ | ⟨_, _, he, -, -⟩ := hop?_cases hx
    · cases he
      exact hall (x, y) (List.mem_of_getElem? (List.getElem?_zip_eq_some.mpr ⟨hx, hy⟩))
    · exact nomatch he
  · intro hall (x, y) hmem
    obtain ⟨index, hindex⟩ := List.mem_iff_getElem?.mp hmem
    obtain ⟨hx, hy⟩ := List.getElem?_zip_eq_some.mp hindex
    exact hall (.item index) x y hx hy

/-- Values of keys are compared key by key. If none is missing in the other
map and there are as many, the keys are the same. -/
theorem Keyed.all_entries_iff (hkeyed : h.Keyed) {a b : Nat} {same : Val → Val → Bool} :
    ((h.entries a).length = (h.entries b).length ∧
      ((h.entries a).all fun (key, x) =>
        match (h.entries b).lookup key with
        | some y => same x y
        | none => false) = true) ↔
    (h.keys a).toFinset = (h.keys b).toFinset ∧
      ∀ hop x y, h.hop? (.map a) hop = some x → h.hop? (.map b) hop = some y →
        same x y = true := by
  have hcard : ∀ ref, (h.keys ref).toFinset.card = (h.entries ref).length := fun ref => by
    rw [List.toFinset_card_of_nodup (hkeyed ref), keys, List.length_map]
  rw [List.all_eq_true]
  constructor
  · rintro ⟨hlength, hall⟩
    have hfound : ∀ {key x}, (key, x) ∈ h.entries a →
        ∃ y, (h.entries b).lookup key = some y ∧ same x y = true := by
      intro key x hx
      have hsame := hall (key, x) hx
      cases hy : (h.entries b).lookup key with
      | some y => exact ⟨y, rfl, by simpa [hy] using hsame⟩
      | none => simp [hy] at hsame
    have hsub : (h.keys a).toFinset ⊆ (h.keys b).toFinset := by
      intro key hkey
      obtain ⟨⟨_, x⟩, hx, rfl⟩ := List.mem_map.mp (List.mem_toFinset.mp hkey)
      obtain ⟨y, hy, -⟩ := hfound hx
      exact List.mem_toFinset.mpr (mem_keys (mem_of_lookup hy))
    refine ⟨Finset.eq_of_subset_of_card_le hsub (by rw [hcard, hcard, hlength]), ?_⟩
    intro hop x y hx hy
    obtain ⟨_, _, he, -, -⟩ | ⟨_, key, he, rfl, hx⟩ := hop?_cases hx
    · exact nomatch he
    · cases he
      obtain ⟨y', hy', hsame⟩ := hfound (mem_of_lookup hx)
      rw [hop?, hy'] at hy
      exact Option.some.inj hy ▸ hsame
  · rintro ⟨hkeys, hall⟩
    refine ⟨by rw [← hcard, ← hcard, hkeys], ?_⟩
    intro (key, x) hx
    have hkey : key ∈ h.keys b := by
      rw [← List.mem_toFinset, ← hkeys, List.mem_toFinset]
      exact mem_keys hx
    obtain ⟨y, hy⟩ := exists_lookup hkey
    simp only [hy]
    exact hall (.entry key) x y (hkeyed.lookup_of_mem hx) hy

/-- Two collections are equal if they are one, are being compared already, or
look the same and have equal values behind every common step. -/
theorem Keyed.equalUnder_succ (hkeyed : h.Keyed) (p : Pairing) (fuel : Nat)
    (visiting : List Pairing) :
    h.equalUnder (fuel + 1) visiting p.left p.right = true ↔
      p.left = p.right ∨ p ∈ visiting ∨ (h.face p.left = h.face p.right ∧
        ∀ hop x y, h.hop? p.left hop = some x → h.hop? p.right hop = some y →
          h.equalUnder fuel (p :: visiting) x y = true) := by
  cases p with
  | arrays a b =>
    simp only [Pairing.left, Pairing.right, equalUnder, face, Bool.or_eq_true, Bool.and_eq_true,
      beq_iff_eq, List.contains_iff_mem, or_assoc, Val.array.injEq, Face.array.injEq,
      all_items_iff]
  | maps a b =>
    simp only [Pairing.left, Pairing.right, equalUnder, face, Bool.or_eq_true, Bool.and_eq_true,
      beq_iff_eq, List.contains_iff_mem, or_assoc, Val.map.injEq, Face.map.injEq]
    exact or_congr_right (or_congr_right hkeyed.all_entries_iff)

/-- Alike values are equal, whatever is being compared and however deep the
comparison may go. -/
theorem Keyed.equalUnder_of_alike (hkeyed : h.Keyed) (hv : h.FloatFree v) (hw : h.FloatFree w)
    (hvw : h.Alike v w) (fuel : Nat) (visiting : List Pairing) :
    h.equalUnder fuel visiting v w = true := by
  induction fuel generalizing visiting v w with
  | zero =>
    obtain ⟨p, rfl, rfl⟩ | hflat := Pairing.cases_of v w
    · exact equalUnder_zero p visiting
    · exact (equalUnder_flat hflat hv.ne_float hw.ne_float 0 visiting).mpr hvw.face_eq
  | succ fuel ih =>
    obtain ⟨p, rfl, rfl⟩ | hflat := Pairing.cases_of v w
    · refine (hkeyed.equalUnder_succ p fuel visiting).mpr (.inr (.inr ⟨hvw.face_eq, ?_⟩))
      intro hop x y hx hy
      exact ih (hv.hop hx) (hw.hop hy) (hvw.hop hx hy) _
    · exact (equalUnder_flat hflat hv.ne_float hw.ne_float _ visiting).mpr hvw.face_eq

/-- No path of fewer steps tells two values apart. -/
def AlikeBelow (h : Heap) (n : Nat) (v w : Val) : Prop :=
  ∀ path, path.length < n → ¬ h.ToldApart path v w

theorem AlikeBelow.mono {m n : Nat} (hvw : h.AlikeBelow n v w) (hle : m ≤ n) :
    h.AlikeBelow m v w := fun path hlt => hvw path (hlt.trans_le hle)

theorem AlikeBelow.hop {n : Nat} (hvw : h.AlikeBelow (n + 1) v w) {hop : Hop} {x y : Val}
    (hx : h.hop? v hop = some x) (hy : h.hop? w hop = some y) : h.AlikeBelow n x y :=
  fun path hlt hxy => hvw (hop :: path) (Nat.succ_lt_succ hlt) (hxy.cons hx hy)

/-- A difference at the end of a shortest path is found, if all that is being
compared is farther from its differences than the path is long. -/
theorem Keyed.not_equalUnder_of_toldApart (hkeyed : h.Keyed) (hv : h.FloatFree v)
    (hw : h.FloatFree w) {path : List Hop} (hapart : h.ToldApart path v w)
    (hshortest : h.AlikeBelow path.length v w) {fuel : Nat} (hfuel : path.length < fuel)
    {visiting : List Pairing}
    (hvisiting : ∀ p ∈ visiting, h.AlikeBelow (path.length + 1) p.left p.right) :
    ¬ h.equalUnder fuel visiting v w = true := by
  induction fuel generalizing path visiting v w with
  | zero => exact absurd hfuel (Nat.not_lt_zero _)
  | succ fuel ih =>
    obtain ⟨p, rfl, rfl⟩ | hflat := Pairing.cases_of v w
    · rw [hkeyed.equalUnder_succ]
      rintro (he | hmem | ⟨hface, hall⟩)
      · rw [he] at hapart
        exact not_toldApart_self path hapart
      · exact hvisiting p hmem path (Nat.lt_succ_self _) hapart
      · cases path with
        | nil => exact toldApart_nil.mp hapart hface
        | cons hop path =>
          obtain ⟨x, y, hx, hy, hxy⟩ := toldApart_cons hapart
          -- The pair that is opened has its nearest difference a step farther away.
          have hopened : ∀ q ∈ p :: visiting, h.AlikeBelow (path.length + 1) q.left q.right :=
            List.forall_mem_cons.mpr
              ⟨hshortest, fun q hq => (hvisiting q hq).mono (Nat.le_succ _)⟩
          exact ih (hv.hop hx) (hw.hop hy) hxy (hshortest.hop hx hy)
            (Nat.lt_of_succ_lt_succ hfuel) hopened (hall hop x y hx hy)
    · rw [equalUnder_flat hflat hv.ne_float hw.ne_float]
      cases path with
      | nil => exact toldApart_nil.mp hapart
      | cons hop path =>
        obtain ⟨x, y, hx, hy, -⟩ := toldApart_cons hapart
        exact absurd hy (no_common_hop hflat hx)

/-- The comparison as it runs, to a given depth. It keeps in mind which
collections it is comparing. -/
def compare (h : Heap) : Nat → Val → Val → Walk Pairing Bool
  | 0, _, _ => failure
  | _ + 1, .null, .null => pure true
  | _ + 1, .bool a, .bool b => pure (a == b)
  | _ + 1, .int a, .int b => pure (a == b)
  | _ + 1, .float a, .float b => pure (a == b)
  | _ + 1, .int a, .float b => pure (a.toFloat == b)
  | _ + 1, .float a, .int b => pure (b.toFloat == a)
  | _ + 1, .str a, .str b => pure (a == b)
  | _ + 1, .exception t m, .exception t' m' => pure (t == t' && m == m')
  | _ + 1, .object _ a, .object _ b => pure (a == b)
  | depth + 1, .array a, .array b =>
    if a == b then pure true
    else
      Walk.visit (.arrays a b)
        (if (h.items a).length == (h.items b).length then
          ((h.items a).zip (h.items b)).allM fun (x, y) => h.compare depth x y
        else pure false)
        (pure true)
  | depth + 1, .map a, .map b =>
    if a == b then pure true
    else
      Walk.visit (.maps a b)
        (if (h.entries a).length == (h.entries b).length then
          (h.entries a).allM fun (key, x) =>
            match (h.entries b).lookup key with
            | some y => h.compare depth x y
            | none => pure false
        else pure false)
        (pure true)
  | _ + 1, _, _ => pure false

/-- All pairs of collections of one kind that are in the heap. -/
def pairings (h : Heap) : List Pairing :=
  (List.range h.arrays.size ×ˢ List.range h.arrays.size).map (fun (a, b) => .arrays a b) ++
    (List.range h.maps.size ×ˢ List.range h.maps.size).map fun (a, b) => .maps a b

theorem length_pairings_lt : h.pairings.length < h.pairBound := by
  simp [pairings, pairBound, List.length_product]

theorem compare_flat (hflat : Pairing.of? v w = none) (depth fuel : Nat)
    (visiting : List Pairing) :
    h.compare (depth + 1) v w = pure (h.equalUnder fuel visiting v w) := by
  cases v <;> cases w <;> simp_all [compare, equalUnder, Pairing.of?]

theorem mem_pairings_arrays {a b : Nat} (ha : a < h.arrays.size) (hb : b < h.arrays.size) :
    .arrays a b ∈ h.pairings :=
  List.mem_append_left _ (List.mem_map.mpr
    ⟨(a, b), List.mem_product.mpr ⟨List.mem_range.mpr ha, List.mem_range.mpr hb⟩, rfl⟩)

theorem mem_pairings_maps {a b : Nat} (ha : a < h.maps.size) (hb : b < h.maps.size) :
    .maps a b ∈ h.pairings :=
  List.mem_append_right _ (List.mem_map.mpr
    ⟨(a, b), List.mem_product.mpr ⟨List.mem_range.mpr ha, List.mem_range.mpr hb⟩, rfl⟩)

/-- The comparison has an answer at any depth that leaves room for all pairs of
collections, and it is the answer under any such bound. -/
theorem compare_yields {depth fuel : Nat} {visiting : List Pairing}
    (hdepth : Walk.Room h.pairings depth visiting) (hroom : Walk.Room h.pairings fuel visiting)
    (v w : Val) :
    Walk.Yields visiting (h.compare depth v w) (h.equalUnder fuel visiting v w) := by
  induction depth generalizing fuel visiting v w with
  | zero => exact hdepth.not_zero.elim
  | succ depth ih =>
    obtain ⟨p, rfl, rfl⟩ | hflat := Pairing.cases_of v w
    · cases fuel with
      | zero => exact hroom.not_zero.elim
      | succ fuel =>
        cases p with
        | arrays a b =>
          rw [Pairing.left, Pairing.right, compare, equalUnder, Bool.or_assoc]
          refine (Walk.yields_visit_or fun hnew => (Walk.yields_allM ?_).and _).or _
          intro (x, y) hmem
          obtain ⟨hx, hy⟩ := List.of_mem_zip hmem
          have hpair := mem_pairings_arrays (lt_of_mem_items hx) (lt_of_mem_items hy)
          exact ih (hdepth.enter hnew hpair) (hroom.enter hnew hpair) x y
        | maps a b =>
          rw [Pairing.left, Pairing.right, compare, equalUnder, Bool.or_assoc]
          refine (Walk.yields_visit_or fun hnew => (Walk.yields_allM ?_).and _).or _
          intro (key, x) hx
          dsimp only
          cases hy : (h.entries b).lookup key with
          | none => exact Walk.yields_pure false
          | some y =>
            have hpair :=
              mem_pairings_maps (lt_of_mem_entries hx) (lt_of_mem_entries (mem_of_lookup hy))
            exact ih (hdepth.enter hnew hpair) (hroom.enter hnew hpair) x y
    · rw [compare_flat hflat depth fuel visiting]
      exact Walk.yields_pure _

/-- The comparison comes to an end with the answer to whether values are equal. -/
theorem compare_ends (v w : Val) : Walk.Ends (h.compare · v w) (h.equal v w) :=
  ⟨h.pairBound, fun _ hdepth => compare_yields
    (.start (length_pairings_lt.trans_le hdepth)) (.start length_pairings_lt) v w⟩

/-- The bound makes no difference once it leaves room for all pairs. -/
theorem equal_eq_equalUnder {fuel : Nat} (hfuel : h.pairBound ≤ fuel) (v w : Val) :
    h.equal v w = h.equalUnder fuel [] v w := by
  have hroom : Walk.Room h.pairings h.pairBound [] := .start length_pairings_lt
  have hroom' : Walk.Room h.pairings fuel [] := .start (length_pairings_lt.trans_le hfuel)
  exact (compare_yields hroom hroom v w).unique (compare_yields hroom hroom' v w)

/-- Of the paths that tell two values apart, one is shortest. -/
theorem exists_shortest (hdiffer : ¬ h.Alike v w) :
    ∃ path, h.ToldApart path v w ∧ h.AlikeBelow path.length v w := by
  classical
  obtain ⟨path, hapart⟩ := not_forall_not.mp hdiffer
  have hsome : ∃ n, ∃ path : List Hop, path.length = n ∧ h.ToldApart path v w :=
    ⟨path.length, path, rfl, hapart⟩
  obtain ⟨shortest, hlength, hshortest⟩ := Nat.find_spec hsome
  exact ⟨shortest, hshortest, fun other hlt hother =>
    Nat.find_min hsome (hlength ▸ hlt) ⟨other, rfl, hother⟩⟩

theorem Keyed.alike_of_equal (hkeyed : h.Keyed) (hv : h.FloatFree v) (hw : h.FloatFree w)
    (hequal : h.equal v w = true) : h.Alike v w := by
  by_contra hdiffer
  obtain ⟨path, hapart, hshortest⟩ := exists_shortest hdiffer
  rw [equal_eq_equalUnder (Nat.le_add_right h.pairBound (path.length + 1))] at hequal
  have hfuel : path.length < h.pairBound + (path.length + 1) := by omega
  exact hkeyed.not_equalUnder_of_toldApart hv hw hapart hshortest hfuel
    (fun _ hp => absurd hp List.not_mem_nil) hequal

/-- Values without doubles are equal if and only if they are alike. -/
theorem Keyed.equal_iff_alike (hkeyed : h.Keyed) (hv : h.FloatFree v) (hw : h.FloatFree w) :
    h.equal v w = true ↔ h.Alike v w :=
  ⟨hkeyed.alike_of_equal hv hw, fun hvw => hkeyed.equalUnder_of_alike hv hw hvw _ _⟩

/-- On values from which no double can be reached, the comparison comes to an
end, and says that two values are equal exactly if no path tells them apart.
So equality is an equivalence on such values. -/
theorem Keyed.equal_is_bisimilarity (hkeyed : h.Keyed) :
    (∀ v w, h.FloatFree v → h.FloatFree w →
      Walk.Ends (h.compare · v w) (h.equal v w) ∧ (h.equal v w = true ↔ h.Alike v w)) ∧
    Equivalence fun v w : {v // h.FloatFree v} => h.equal v w = true := by
  refine ⟨fun v w hv hw => ⟨compare_ends v w, hkeyed.equal_iff_alike hv hw⟩, ?_⟩
  refine ⟨fun v => ?_, fun {v w} hvw => ?_, fun {v w u} hvw hwu => ?_⟩
  · exact (hkeyed.equal_iff_alike v.2 v.2).mpr (.refl v.1)
  · exact (hkeyed.equal_iff_alike w.2 v.2).mpr (hkeyed.alike_of_equal v.2 w.2 hvw).symm
  · exact (hkeyed.equal_iff_alike v.2 u.2).mpr
      ((hkeyed.alike_of_equal v.2 w.2 hvw).trans (hkeyed.alike_of_equal w.2 u.2 hwu))

/-- Three arrays that begin with a one. The first ends with itself, the others
with each other. -/
def rings : Heap :=
  let h := (({} : Heap).newArray [.int 1, .array 0]).2
  let h := (h.newArray []).2
  let h := (h.newArray [.int 1, .array 1]).2
  h.setItems 1 [.int 1, .array 2]

theorem rings_made : rings.Made :=
  .setItems 1 _ (.newArray _ (.newArray _ (.newArray _ .empty)))

/-- Where neither arrays nor maps hold doubles, none is reached. -/
theorem floatFree_of_contents (hitems : ∀ items ∈ h.arrays, ∀ x ∈ items, ∀ y, x ≠ .float y)
    (hentries : ∀ entries ∈ h.maps, ∀ entry ∈ entries, ∀ y, entry.2 ≠ .float y)
    (hv : ∀ y, v ≠ .float y) : h.FloatFree v := by
  intro path
  induction path generalizing v with
  | nil => exact fun y he => hv y (Option.some.inj he)
  | cons hop path ih =>
    intro y hy
    obtain ⟨x, hx, hy⟩ := follow?_cons_eq_some hy
    refine ih ?_ y hy
    obtain ⟨ref, index, rfl, rfl, hx⟩ | ⟨ref, key, rfl, rfl, hx⟩ := hop?_cases hx
    · have hmem := List.mem_of_getElem? hx
      have hlt := lt_of_mem_items hmem
      rw [items, Array.getD_eq_getD_getElem?, Array.getElem?_eq_getElem hlt] at hmem
      exact hitems _ (Array.getElem_mem hlt) x hmem
    · have hmem := mem_of_lookup hx
      have hlt := lt_of_mem_entries hmem
      rw [entries, Array.getD_eq_getD_getElem?, Array.getElem?_eq_getElem hlt] at hmem
      exact hentries _ (Array.getElem_mem hlt) (key, x) hmem

theorem rings_floatFree (ref : Nat) : rings.FloatFree (.array ref) :=
  floatFree_of_contents (by simp [rings, newArray, setItems]) (by simp [rings, newArray, setItems])
    (by simp)

theorem rings_equal_is_bisimilarity :
    rings.Keyed ∧ rings.FloatFree (.array 0) ∧ rings.FloatFree (.array 1) ∧
      rings.equal (.array 0) (.array 1) = true ∧ rings.Alike (.array 0) (.array 1) := by
  have hequal : rings.equal (.array 0) (.array 1) = true := by decide
  have hspec := (Keyed.equal_is_bisimilarity rings_made.keyed).1 (.array 0) (.array 1)
    (rings_floatFree 0) (rings_floatFree 1)
  exact ⟨rings_made.keyed, rings_floatFree 0, rings_floatFree 1, hequal, hspec.2.mp hequal⟩

end Heap

end Stepwise
