import Stepwise.Proofs.Value.Walk
import Stepwise.Value.Export

/-!
# Text and JSON of values

Both forms are written by one walk. They differ in what a value looks like and
in whether objects are looked into. The walk comes to an end on every heap. It
cuts short what is reached again on the way from the root to itself, and
nothing else: a thing that is only shared is written out wherever it stands.
-/

namespace Stepwise

/-- The thing that a value leads to, if a walk can step inside of it. Whether
objects count is open. -/
def Val.place? (deep : Bool) : Val → Option Place
  | .array ref => some (.array ref)
  | .map ref => some (.map ref)
  | .object _ ref => if deep then some (.object ref) else none
  | _ => none

/-- What a written value looks like. -/
structure Style (ρ : Type) where
  /-- Objects are looked into. -/
  deep : Bool
  /-- A value with its parts, each under its name. -/
  whole : Val → List (String × ρ) → ρ
  /-- What stands for a thing that is being written. -/
  cut : Val → ρ

/-- The text that the console and messages show. -/
def Style.text : Style String where
  deep := false
  whole
    | .null, _ => "null"
    | .bool b, _ => if b then "true" else "false"
    | .int n, _ => toString n.toInt
    | .float x, _ => Decimal.plain x
    | .str s, _ => s
    | .exception typeName message, _ => typeName ++ ": " ++ message
    | .object typeName _, _ => "<" ++ typeName ++ ">"
    | .array _, parts => "[" ++ ", ".intercalate (parts.map (·.2)) ++ "]"
    | .map _, parts =>
      "\x7b" ++ ", ".intercalate (parts.map fun (key, value) => key ++ ": " ++ value) ++ "\x7d"
  cut
    | .map _ => "\x7b...\x7d"
    | _ => "[...]"

/-- The form in which results leave the system. -/
def Style.json : Style Json where
  deep := true
  whole
    | .null, _ => .null
    | .bool b, _ => .bool b
    | .int n, _ => .int n.toInt
    | .float x, _ => .float x
    | .str s, _ => .str s
    | .exception typeName message, _ =>
      .obj [("type_name", .str typeName), ("message", .str message)]
    | .object typeName _, parts => .obj (("$type", .str typeName) :: parts)
    | .array _, parts => .arr (parts.map (·.2))
    | .map _, parts => .obj parts
  cut _ := .null

/-- What is written of a value, apart from what it looks like. -/
inductive Outline where
  /-- A value with its parts. -/
  | whole (value : Val) (parts : List Outline)
  /-- A thing that is cut short. -/
  | cut (value : Val)

/-- Only the outline is kept. -/
def Style.outline (deep : Bool) : Style Outline where
  deep := deep
  whole v parts := .whole v (parts.map (·.2))
  cut := .cut

/-- The value at some position in an outline, and whether it is cut short there. -/
def Outline.look? : Outline → List Nat → Option (Val × Bool)
  | .whole v _, [] => some (v, false)
  | .cut v, [] => some (v, true)
  | .whole _ parts, index :: path => parts[index]?.bind (·.look? path)
  | .cut _, _ :: _ => none

/-- Things that come to an end one by one come to an end one after the other. -/
theorem mapM_eq_some_map {α β : Type} {f : α → Option β} {g : α → β} {xs : List α}
    (hf : ∀ x ∈ xs, f x = some (g x)) : xs.mapM f = some (xs.map g) := by
  induction xs with
  | nil => rfl
  | cons x xs ih =>
    obtain ⟨hx, hxs⟩ := List.forall_mem_cons.mp hf
    rw [List.mapM_cons, hx, ih hxs]
    rfl

namespace Heap

variable {ρ : Type} {h : Heap} {style : Style ρ}

/-- The parts of a value in their order, each under its name. -/
def parts (h : Heap) (deep : Bool) : Val → List (String × Val)
  | .array ref => (h.items ref).map fun x => ("", x)
  | .map ref => (h.entries ref).map fun (key, x) => (key.text, x)
  | .object _ ref => if deep then h.fields ref else []
  | _ => []

/-- The value of an outline in a style. -/
def render (h : Heap) (style : Style ρ) : Outline → ρ
  | .whole v parts =>
    style.whole v (((h.parts style.deep v).map (·.1)).zip (parts.map (h.render style)))
  | .cut v => style.cut v

/-- Writing as it runs, to a given depth. It keeps in mind what it is writing. -/
def write (h : Heap) (style : Style ρ) : Nat → Val → Walk Place ρ
  | 0, _ => failure
  | depth + 1, v =>
    match v.place? style.deep with
    | none => pure (style.whole v [])
    | some place =>
      Walk.visit place
        (do
          let parts ← (h.parts style.deep v).mapM fun (name, x) => do
            return (name, ← h.write style depth x)
          return style.whole v parts)
        (pure (style.cut v))

/-- Plain writing to a given depth. It has nothing in mind and writes
everything out. -/
def spell (h : Heap) (style : Style ρ) : Nat → Val → Option ρ
  | 0, _ => none
  | depth + 1, v => do
    let parts ← (h.parts style.deep v).mapM fun (name, x) => do
      return (name, ← h.spell style depth x)
    return style.whole v parts

/-- What is written below the things that are being written. Where the bound
is used up, things are cut short. -/
def writeUnder (h : Heap) (style : Style ρ) : Nat → List Place → Val → ρ
  | 0, _, v => if (v.place? style.deep).isSome then style.cut v else style.whole v []
  | fuel + 1, visiting, v =>
    match v.place? style.deep with
    | none => style.whole v []
    | some place =>
      if visiting.contains place then style.cut v
      else style.whole v ((h.parts style.deep v).map fun (name, x) =>
        (name, h.writeUnder style fuel (place :: visiting) x))

theorem textUnder_eq (fuel : Nat) (visiting : List Place) (v : Val) :
    h.textUnder fuel visiting v = h.writeUnder .text fuel visiting v := by
  induction fuel generalizing visiting v with
  | zero => cases v <;> rfl
  | succ fuel ih =>
    cases v with
    | array ref =>
      simp [textUnder, funext (ih _), writeUnder, Val.place?, parts, Style.text,
        Function.comp_def]
    | map ref =>
      simp [textUnder, ih, writeUnder, Val.place?, parts, Style.text, Function.comp_def]
    | _ => rfl

theorem exportUnder_eq (fuel : Nat) (visiting : List Place) (v : Val) :
    h.exportUnder fuel visiting v = h.writeUnder .json fuel visiting v := by
  induction fuel generalizing visiting v with
  | zero => cases v <;> rfl
  | succ fuel ih =>
    cases v with
    | array ref =>
      simp [exportUnder, funext (ih _), writeUnder, Val.place?, parts, Style.json,
        Function.comp_def]
    | map ref =>
      simp [exportUnder, ih, writeUnder, Val.place?, parts, Style.json, Function.comp_def]
    | object typeName ref =>
      simp [exportUnder, ih, writeUnder, Val.place?, parts, Style.json]
    | _ => rfl

/-- All that is in the heap. -/
def places (h : Heap) : List Place :=
  (List.range h.arrays.size).map .array ++ (List.range h.maps.size).map .map ++
    (List.range h.objects.size).map .object

theorem length_places_lt : h.places.length < h.placeBound := by
  simp only [places, placeBound, List.length_append, List.length_map, List.length_range]
  omega

/-- Only what is in the heap has parts. -/
theorem mem_places {deep : Bool} {v : Val} {place : Place} (hplace : v.place? deep = some place)
    {part : String × Val} (hpart : part ∈ h.parts deep v) : place ∈ h.places := by
  cases v with
  | array ref =>
    obtain ⟨x, hx, -⟩ := List.mem_map.mp hpart
    cases hplace
    simpa [places] using lt_of_mem_items hx
  | map ref =>
    obtain ⟨entry, hentry, -⟩ := List.mem_map.mp hpart
    cases hplace
    simpa [places] using lt_of_mem_entries hentry
  | object typeName ref =>
    cases deep with
    | false => exact nomatch hplace
    | true =>
      cases hplace
      simpa [places] using lt_of_mem_fields hpart
  | _ => exact nomatch hplace

/-- What a walk does not step inside of has no parts. -/
theorem parts_eq_nil {deep : Bool} {v : Val} (hplace : v.place? deep = none) :
    h.parts deep v = [] := by
  cases v with
  | array | map => exact nomatch hplace
  | object typeName ref =>
    cases deep with
    | false => rfl
    | true => exact nomatch hplace
  | _ => rfl

/-- Writing has an answer at any depth that leaves room for all that is in the
heap, and it is what is written under any such bound. -/
theorem write_yields {depth fuel : Nat} {visiting : List Place}
    (hdepth : Walk.Room h.places depth visiting) (hroom : Walk.Room h.places fuel visiting)
    (v : Val) :
    Walk.Yields visiting (h.write style depth v) (h.writeUnder style fuel visiting v) := by
  induction depth generalizing fuel visiting v with
  | zero => exact hdepth.not_zero.elim
  | succ depth ih =>
    cases fuel with
    | zero => exact hroom.not_zero.elim
    | succ fuel =>
      rw [write, writeUnder]
      cases hplace : v.place? style.deep with
      | none => exact Walk.yields_pure _
      | some place =>
        refine Walk.yields_visit (fun hin => ?_) fun hnew => ?_
        · simp only [List.contains_iff_mem.mpr hin, if_true]
          exact Walk.yields_pure _
        · simp only [List.contains_iff_mem, hnew, if_false]
          refine (Walk.yields_mapM ?_).andPure _
          intro (name, x) hx
          have hin := mem_places hplace hx
          exact (ih (hdepth.enter hnew hin) (hroom.enter hnew hin) x).andPure _

/-- The outline determines what is written. -/
theorem writeUnder_eq_render (fuel : Nat) (visiting : List Place) (v : Val) :
    h.writeUnder style fuel visiting v =
      h.render style (h.writeUnder (.outline style.deep) fuel visiting v) := by
  induction fuel generalizing visiting v with
  | zero =>
    rw [writeUnder, writeUnder, apply_ite (h.render style)]
    refine if_congr Iff.rfl ?_ ?_
    · rw [Style.outline, render]
    · rw [Style.outline, render, List.map_nil, List.map_nil, List.zip_nil_right]
  | succ fuel ih =>
    rw [writeUnder, writeUnder]
    dsimp only [Style.outline]
    cases hplace : v.place? style.deep with
    | none => rw [render, List.map_nil, List.map_nil, List.zip_nil_right]
    | some place =>
      dsimp only
      split_ifs
      · rw [render]
      · rw [render, List.map_map, List.map_map, List.zip_map']
        exact congrArg (style.whole v) (List.map_congr_left fun part _ =>
          congrArg (Prod.mk part.1) (ih _ part.2))

/-- The things that a path through the parts of a value leads through, and the
value that it leads to. -/
def trail? (h : Heap) (deep : Bool) : Val → List Nat → Option (List Place × Val)
  | v, [] => some ([], v)
  | v, index :: path => do
    let (_, x) ← (h.parts deep v)[index]?
    let (through, w) ← h.trail? deep x path
    return ((v.place? deep).toList ++ through, w)

section Outlines

variable {deep : Bool} {v w : Val} {index : Nat} {path : List Nat} {through : List Place}
  {fuel : Nat} {visiting : List Place}

theorem trail?_cons_eq_some : h.trail? deep v (index :: path) = some (through, w) ↔
    ∃ place part rest, v.place? deep = some place ∧ (h.parts deep v)[index]? = some part ∧
      h.trail? deep part.2 path = some (rest, w) ∧ through = place :: rest := by
  cases hplace : v.place? deep with
  | none => simp [trail?, parts_eq_nil hplace]
  | some place =>
    simp only [trail?, hplace, Option.bind_eq_bind, Option.bind_eq_some_iff]
    constructor
    · rintro ⟨part, hpart, ⟨rest, x⟩, hrest, he⟩
      cases he
      exact ⟨place, part, rest, rfl, hpart, hrest, rfl⟩
    · rintro ⟨_, part, rest, he, hpart, hrest, rfl⟩
      cases he
      exact ⟨part, hpart, (rest, w), hrest, rfl⟩

/-- An outline begins with the value. -/
theorem look?_nil : (h.writeUnder (.outline deep) (fuel + 1) visiting v).look? [] =
    some (v, (v.place? deep).any visiting.contains) := by
  rw [writeUnder]
  dsimp only [Style.outline]
  cases hplace : v.place? deep with
  | none => rfl
  | some place =>
    dsimp only
    split_ifs with hmem
    · rw [Outline.look?, Option.any_some, hmem]
    · rw [Outline.look?, Option.any_some, Bool.eq_false_iff.mpr hmem]

/-- It goes on with the outlines of the parts, unless it is cut short. -/
theorem look?_cons {result : Val × Bool} :
    (h.writeUnder (.outline deep) (fuel + 1) visiting v).look? (index :: path) = some result ↔
      ∃ place part, v.place? deep = some place ∧ place ∉ visiting ∧
        (h.parts deep v)[index]? = some part ∧
        (h.writeUnder (.outline deep) fuel (place :: visiting) part.2).look? path =
          some result := by
  rw [writeUnder]
  dsimp only [Style.outline]
  cases hplace : v.place? deep with
  | none => simp [Outline.look?]
  | some place =>
    dsimp only
    split_ifs with hmem
    · rw [List.contains_iff_mem] at hmem
      simp [Outline.look?, hmem]
    · rw [List.contains_iff_mem] at hmem
      simp [Outline.look?, hmem, Option.bind_eq_some_iff]

/-- Below the things that are being written, an outline shows what paths lead
to that go through nothing twice. It is cut short where they lead back. -/
theorem look?_eq_some_iff (hroom : Walk.Room h.places fuel visiting) {cut : Bool} :
    (h.writeUnder (.outline deep) fuel visiting v).look? path = some (w, cut) ↔
      ∃ through, h.trail? deep v path = some (through, w) ∧ (through ++ visiting).Nodup ∧
        (cut = true ↔ ∃ place ∈ through ++ visiting, w.place? deep = some place) := by
  induction fuel generalizing visiting v path with
  | zero => exact hroom.not_zero.elim
  | succ fuel ih =>
    cases path with
    | nil =>
      have hback : (v.place? deep).any visiting.contains = true ↔
          ∃ place ∈ visiting, v.place? deep = some place := by
        simp [Option.any_eq_true, and_comm]
      rw [look?_nil]
      constructor
      · rintro he
        cases he
        exact ⟨[], rfl, hroom.distinct, hback⟩
      · rintro ⟨_, he, -, hcut⟩
        cases he
        rw [Bool.eq_iff_iff.mpr (hback.trans hcut.symm)]
    | cons index path =>
      -- What is opened on the way moves from the path to what is being written.
      have hmove : ∀ {place : Place} {rest : List Place},
          (rest ++ place :: visiting).Perm (place :: rest ++ visiting) := List.perm_middle
      rw [look?_cons]
      constructor
      · rintro ⟨place, part, hplace, hnew, hpart, hlook⟩
        have hroom' := hroom.enter hnew (mem_places hplace (List.mem_of_getElem? hpart))
        obtain ⟨rest, hrest, hdistinct, hcut⟩ := (ih hroom').mp hlook
        refine ⟨place :: rest, ?_, hmove.nodup_iff.mp hdistinct, ?_⟩
        · exact trail?_cons_eq_some.mpr ⟨place, part, rest, hplace, hpart, hrest, rfl⟩
        · simpa only [hmove.mem_iff] using hcut
      · rintro ⟨through, htrail, hdistinct, hcut⟩
        obtain ⟨place, part, rest, hplace, hpart, hrest, rfl⟩ := trail?_cons_eq_some.mp htrail
        have hnew : place ∉ visiting := fun hin =>
          (List.nodup_cons.mp hdistinct).1 (List.mem_append_right rest hin)
        have hroom' := hroom.enter hnew (mem_places hplace (List.mem_of_getElem? hpart))
        refine ⟨place, part, hplace, hnew, hpart, (ih hroom').mpr ⟨rest, hrest, ?_, ?_⟩⟩
        · exact hmove.nodup_iff.mpr hdistinct
        · simpa only [hmove.mem_iff] using hcut

end Outlines

/-- No thing that a value leads to contains itself. -/
def Acyclic (h : Heap) (deep : Bool) (v : Val) : Prop :=
  ∀ path through w, h.trail? deep v path = some (through, w) →
    ∀ place ∈ through, w.place? deep ≠ some place

/-- What leads neither to itself nor to things that are being written is
written out in full. -/
theorem spell_eq_writeUnder {depth fuel : Nat} {visiting : List Place}
    (hdepth : Walk.Room h.places depth visiting) (hroom : Walk.Room h.places fuel visiting)
    {v : Val} (hfree : ∀ path through w, h.trail? style.deep v path = some (through, w) →
      ∀ place ∈ through ++ visiting, w.place? style.deep ≠ some place) :
    h.spell style depth v = some (h.writeUnder style fuel visiting v) := by
  induction depth generalizing fuel visiting v with
  | zero => exact hdepth.not_zero.elim
  | succ depth ih =>
    cases fuel with
    | zero => exact hroom.not_zero.elim
    | succ fuel =>
      rw [spell, writeUnder]
      cases hplace : v.place? style.deep with
      | none =>
        rw [parts_eq_nil hplace]
        rfl
      | some place =>
        have hnew : place ∉ visiting := fun hin => hfree [] [] v rfl place hin hplace
        have hparts : ∀ part ∈ h.parts style.deep v, h.spell style depth part.2 =
            some (h.writeUnder style fuel (place :: visiting) part.2) := by
          intro part hpart
          have hin := mem_places hplace hpart
          refine ih (hdepth.enter hnew hin) (hroom.enter hnew hin) fun path rest w hrest => ?_
          obtain ⟨index, hindex⟩ := List.mem_iff_getElem?.mp hpart
          have htrail := trail?_cons_eq_some.mpr ⟨place, part, rest, hplace, hindex, hrest, rfl⟩
          intro p hp
          exact hfree (index :: path) _ w htrail p (List.perm_middle.mem_iff.mp hp)
        rw [mapM_eq_some_map (g := fun part =>
          (part.1, h.writeUnder style fuel (place :: visiting) part.2))]
        · simp [hnew]
        · intro part hpart
          simp [hparts part hpart]

/-- What is written of a value in a style. -/
structure Renders (h : Heap) (style : Style ρ) (v : Val) (result : ρ) : Prop where
  /-- Writing comes to an end with the result. Nothing is being written then. -/
  ends : Walk.Ends (h.write style · v) result
  /-- The result has an outline. It shows all that is reached on paths that go
  through nothing twice, and is cut short exactly where a thing is reached
  again on the path from the root to itself. -/
  outlined : ∃ outline : Outline, result = h.render style outline ∧
    ∀ path w cut, outline.look? path = some (w, cut) ↔
      ∃ through, h.trail? style.deep v path = some (through, w) ∧ through.Nodup ∧
        (cut = true ↔ ∃ place ∈ through, w.place? style.deep = some place)
  /-- Without cycles everything is written out, as often as it is reached. -/
  plain : h.Acyclic style.deep v →
    ∃ enough, ∀ depth, enough ≤ depth → h.spell style depth v = some result

theorem renders_writeUnder {fuel : Nat} (hfuel : h.places.length < fuel) (v : Val) :
    h.Renders style v (h.writeUnder style fuel [] v) where
  ends := by
    refine ⟨fuel, fun depth hdepth => ?_⟩
    exact write_yields (.start (Nat.lt_of_lt_of_le hfuel hdepth)) (.start hfuel) v
  outlined := by
    refine ⟨_, writeUnder_eq_render fuel [] v, fun path w cut => ?_⟩
    simpa only [List.append_nil] using look?_eq_some_iff (.start hfuel)
  plain hacyclic := by
    refine ⟨fuel, fun depth hdepth => ?_⟩
    refine spell_eq_writeUnder (.start (Nat.lt_of_lt_of_le hfuel hdepth)) (.start hfuel) ?_
    intro path through w htrail
    rw [List.append_nil]
    exact hacyclic path through w htrail

/-- Text and JSON of any value on any heap are written by walks that come to
an end inside of nothing, and cut short cycles and nothing else. -/
theorem text_and_json_cut_cycles (h : Heap) (v : Val) :
    h.Renders .text v (h.text v) ∧ h.Renders .json v (h.toJson v) := by
  rw [text, textUnder_eq, toJson, exportUnder_eq]
  exact ⟨renders_writeUnder length_places_lt v, renders_writeUnder length_places_lt v⟩

/-- An array that stands in two places is written twice; one that stands in
itself is cut short. -/
example :
    let h : Heap := { arrays := #[[.int 1], [.array 0, .array 0], [.array 2, .array 0]] }
    h.text (.array 1) = "[[1], [1]]" ∧ h.text (.array 2) = "[[...], [1]]" := by
  decide

end Heap

end Stepwise
