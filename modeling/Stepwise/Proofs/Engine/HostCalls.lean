import Stepwise.Proofs.Engine.Faults
import Stepwise.Proofs.Value.Keys
import Stepwise.Session.Basic

/-!
# Calls of the host

A call of the host that fails changes nothing. One that succeeds leaves its
mark in at most one place: a line on the console, a name among the loaded
assemblies, or the one array, map or object that it was made on. All that is
in the heap besides stays as it is, however it is shared; what is made new
gets a place that no value has referred to yet.
-/

namespace Stepwise

/-- A call of the host. -/
inductive HostCall where
  /-- Read a property. -/
  | get (target : Target) (name : String)
  /-- Set a property. -/
  | set (target : Target) (name : String) (value : Val)
  /-- Call a method. -/
  | invoke (target : Target) (name : String) (args : List Val)
  /-- Make a new value of a type. -/
  | construct (typeName : String) (args : List Val)
  /-- Load an assembly. -/
  | load (name : String)

namespace HostCall

/-- The operation of the host that is called. A call without a value gives null. -/
def op : HostCall → Host.Op Val
  | .get target name => do
    let h ← Host.Op.heap
    Host.getProperty h target name
  | .set target name value => do
    Host.Op.setProperty target name value
    pure .null
  | .invoke target name args => .invoke target name args
  | .construct typeName args => .construct typeName args
  | .load name => do
    Host.Op.load name
    pure .null

/-- The step of an engine that makes the call. -/
def perform : HostCall → Exec Val
  | .get target name => Engine.readProperty target name
  | .set target name value => do
    Engine.onHost (.setProperty target name value)
    pure .null
  | .invoke target name args => Engine.onHost (.invoke target name args)
  | .construct typeName args => Engine.onHost (.construct typeName args)
  | .load name => do
    loadAll [name]
    pure .null

/-- The world after an operation of the host, and the value or the failure that it ends with. -/
def settle (w : World) : Except Fault Val × Host × Heap → World × Except Unwind Val
  | (.ok v, host, heap) => ({ w with host, heap }, .ok v)
  | (.error f, host, heap) => ({ w with host, heap }, .error (.failed { fault := f }))

/-- An operation is followed by null. -/
theorem op_then_null (op : Host.Op Unit) (s : Host × Heap) :
    (do op; pure .null : Host.Op Val) s = ((op s).1.map fun _ => .null, (op s).2) := by
  rw [Host.Op.bind_apply]
  rcases op s with ⟨f | a, s'⟩ <;> rfl

theorem onHost_then_null (op : Host.Op Unit) (w : World) :
    (Engine.onHost op w).andThen (fun w r => .done w (r.map fun _ => .null)) =
      .done (settle w ((do op; pure .null : Host.Op Val) (w.host, w.heap))).1
        (settle w ((do op; pure .null : Host.Op Val) (w.host, w.heap))).2 := by
  rw [op_then_null, Engine.onHost]
  rcases op (w.host, w.heap) with ⟨f | a, host, heap⟩ <;> rfl

theorem onHost_eq (op : Host.Op Val) (w : World) :
    Engine.onHost op w =
      .done (settle w (op (w.host, w.heap))).1 (settle w (op (w.host, w.heap))).2 := by
  rw [Engine.onHost]
  rcases op (w.host, w.heap) with ⟨f | a, host, heap⟩ <;> rfl

/-- The step ends with what the operation leads to. -/
theorem perform_eq (c : HostCall) (w : World) :
    c.perform w =
      .done (settle w (c.op (w.host, w.heap))).1 (settle w (c.op (w.host, w.heap))).2 := by
  have hnull : ∀ (x : Exec Unit), (do x; pure .null : Exec Val) w =
      (x w).andThen (fun w r => .done w (r.map fun _ => .null)) := by
    intro x
    show (x w).andThen _ = _
    congr 1
    funext v r
    cases r <;> rfl
  cases c with
  | get target name =>
    show Exec.lift (Host.getProperty w.heap target name) w =
      .done (settle w ((liftM (Host.getProperty w.heap target name) : Host.Op Val) _)).1
        (settle w ((liftM (Host.getProperty w.heap target name) : Host.Op Val) _)).2
    cases Host.getProperty w.heap target name <;> rfl
  | set target name value => exact (hnull _).trans (onHost_then_null _ w)
  | invoke target name args => exact onHost_eq _ w
  | construct typeName args => exact onHost_eq _ w
  | load name =>
    refine (hnull _).trans (Eq.trans ?_ (onHost_then_null (.load name) w))
    show ((Engine.onHost (.load name) w).andThen _).andThen _ = _
    rw [Run.andThen_assoc]
    congr 1
    funext v r
    cases r <;> rfl

/-- The spots where a call can leave a mark. -/
inductive Spot where
  /-- The console. -/
  | console
  /-- The assemblies that are loaded. -/
  | loaded
  /-- An array. -/
  | array (ref : Nat)
  /-- A map. -/
  | map (ref : Nat)
  /-- An object. -/
  | object (ref : Nat)

/-- The only spot that a call can mark, if there is one. -/
def spot? : HostCall → Option Spot
  | .set (.value (.object _ ref)) _ _ => some (.object ref)
  | .invoke (.type _) _ _ => some .console
  | .invoke (.value (.array ref)) _ _ => some (.array ref)
  | .invoke (.value (.map ref)) _ _ => some (.map ref)
  | .load _ => some .loaded
  | _ => none

/-- What a call can do that can mark the given spot. -/
inductive Marks (host : Host) (h : Heap) : Option Spot → Host → Heap → Prop where
  /-- It only reads. -/
  | nothing {spot : Option Spot} : Marks host h spot host h
  /-- It writes a line. -/
  | line (line : String) :
    Marks host h (some .console) { host with console := host.console.push line } h
  /-- It loads an assembly. -/
  | loading (name : String) :
    Marks host h (some .loaded) { host with loaded := name :: host.loaded } h
  /-- It gives an array other elements. -/
  | items (ref : Nat) (items : List Val) :
    Marks host h (some (.array ref)) host (h.setItems ref items)
  /-- It gives a map other entries. -/
  | entries (ref : Nat) (entries : List (Key × Val)) :
    Marks host h (some (.map ref)) host (h.setEntries ref entries)
  /-- It gives an object other fields. -/
  | fields (ref : Nat) (fields : List (String × Val)) :
    Marks host h (some (.object ref)) host (h.setFields ref fields)
  /-- It makes an array. -/
  | newArray (items : List Val) : Marks host h none host (h.newArray items).2
  /-- It makes a map. -/
  | newMap : Marks host h none host h.newMap.2
  /-- It makes an object. -/
  | newObject (typeName : String) : Marks host h none host (h.newObject typeName).2

section Marks

/-- An operation that succeeds does so step by step. -/
theorem exists_of_bind_ok {α β : Type} {op : Host.Op α} {f : α → Host.Op β} {s s' : Host × Heap}
    {b : β} (h : (op >>= f) s = (.ok b, s')) :
    ∃ a s'', op s = (.ok a, s'') ∧ f a s'' = (.ok b, s') := by
  rw [Host.Op.bind_apply] at h
  rcases hop : op s with ⟨fault | a, s''⟩
  · rw [hop] at h
    cases h
  · rw [hop] at h
    exact ⟨a, s'', rfl, h⟩

/-- A check that succeeds changes nothing. -/
theorem eq_of_check_ok {α : Type} {r : Except Fault α} {s s' : Host × Heap} {a : α}
    (h : (liftM r : Host.Op α) s = (.ok a, s')) : r = .ok a ∧ s' = s := by
  cases r with
  | error f => cases h
  | ok b =>
    cases h
    exact ⟨rfl, rfl⟩

/-- What comes after a check starts from the same host and heap. -/
theorem exists_of_check_ok {α β : Type} {r : Except Fault α} {f : α → Host.Op β}
    {s s' : Host × Heap} {b : β} (h : ((liftM r : Host.Op α) >>= f) s = (.ok b, s')) :
    ∃ a, r = .ok a ∧ f a s = (.ok b, s') := by
  obtain ⟨a, s'', ha, hb⟩ := exists_of_bind_ok h
  obtain ⟨hr, rfl⟩ := eq_of_check_ok ha
  exact ⟨a, hr, hb⟩

variable {host host' : Host} {h h' : Heap} {v : Val}

theorem marks_invokeStatic {typeName name : String} {args : List Val}
    (hok : Host.Op.invokeStatic typeName name args (host, h) = (.ok v, host', h')) :
    Marks host h (some .console) host' h' := by
  unfold Host.Op.invokeStatic at hok
  split at hok
  · cases hok
    exact .line _
  · obtain ⟨_, -, hok⟩ := exists_of_check_ok hok
    cases (eq_of_check_ok hok).2
    exact .nothing
  · obtain ⟨_, -, hok⟩ := exists_of_check_ok hok
    obtain ⟨_, -, hok⟩ := exists_of_check_ok hok
    cases hok
    exact .nothing
  · obtain ⟨_, -, hok⟩ := exists_of_check_ok hok
    obtain ⟨_, -, hok⟩ := exists_of_check_ok hok
    cases hok
    exact .nothing
  · obtain ⟨_, -, hok⟩ := exists_of_check_ok hok
    split at hok
    · split at hok
      · cases hok
        exact .nothing
      · cases hok
    · cases hok
  · cases hok

/-- Removing an element changes at most its array. -/
theorem marks_removeFirst (ref : Nat) (item : Val) :
    Marks host h (some (.array ref)) host (Host.removeFirst h ref item).2 := by
  unfold Host.removeFirst
  split
  · exact .items ref _
  · exact .nothing

theorem marks_invokeOn {owner : Val} {name : String} {args : List Val}
    (hok : Host.Op.invokeOn owner name args (host, h) = (.ok v, host', h')) :
    Marks host h (HostCall.invoke (.value owner) name args).spot? host' h' := by
  unfold Host.Op.invokeOn at hok
  split at hok
  · cases hok
  · obtain ⟨item, -, hok⟩ := exists_of_check_ok hok
    cases hok
    exact .items _ _
  · obtain ⟨⟨key, value⟩, -, hok⟩ := exists_of_check_ok hok
    obtain ⟨key, -, hok⟩ := exists_of_check_ok hok
    change (if _ then _ else _ : Host.Op Val) (host, h) = _ at hok
    split at hok
    · cases hok
    · cases hok
      exact .entries _ _
  · obtain ⟨_, -, hok⟩ := exists_of_check_ok hok
    obtain ⟨_, -, hok⟩ := exists_of_check_ok hok
    cases hok
    exact .nothing
  · obtain ⟨_, -, hok⟩ := exists_of_check_ok hok
    obtain ⟨_, -, hok⟩ := exists_of_check_ok hok
    cases hok
    exact .entries _ _
  · obtain ⟨item, -, hok⟩ := exists_of_check_ok hok
    cases hok
    exact marks_removeFirst _ item
  · cases hok
    exact .nothing
  · cases hok

theorem marks_construct {typeName : String} {args : List Val}
    (hok : Host.Op.construct typeName args (host, h) = (.ok v, host', h')) :
    Marks host h none host' h' := by
  unfold Host.Op.construct at hok
  split at hok
  · cases hok
    exact .nothing
  · cases hok
    exact .newArray args
  · cases hok
    exact .newMap
  · cases hok
    exact .newMap
  · cases hok
    exact .newObject "Object"
  · cases hok

theorem marks_load {name : String}
    (hok : Host.Op.load name (host, h) = (.ok (), host', h')) :
    Marks host h (some .loaded) host' h' := by
  unfold Host.Op.load at hok
  split at hok
  · cases hok
    dsimp only
    split
    · exact .nothing
    · exact .loading name
  · cases hok

theorem marks_setProperty {target : Target} {name : String} {value : Val}
    (hok : Host.Op.setProperty target name value (host, h) = (.ok (), host', h')) :
    Marks host h (HostCall.set target name value).spot? host' h' := by
  unfold Host.Op.setProperty at hok
  split at hok
  · cases hok
    exact .fields _ _
  all_goals cases hok

/-- Each call checks before it changes anything. -/
theorem careful_op (c : HostCall) : Engine.Careful c.op := by
  have hnull : ∀ {op : Host.Op Unit}, Engine.Careful op →
      Engine.Careful (do op; pure .null : Host.Op Val) := by
    intro op hop s f s' hf
    rw [op_then_null] at hf
    rcases hr : op s with ⟨fault | a, s''⟩
    · rw [hr] at hf
      cases hf
      exact hop s _ _ hr
    · rw [hr] at hf
      cases hf
  cases c with
  | get target name =>
    exact Engine.careful_heap fun h => (Engine.tame_getProperty h target name).careful_lift
  | set target name value => exact hnull (Engine.careful_setProperty target name value)
  | invoke target name args => exact Engine.careful_invoke target name args
  | construct typeName args => exact Engine.careful_construct typeName args
  | load name => exact hnull (Engine.careful_load name)

/-- Each call marks its own spot only, also where it fails. -/
theorem marks_op {c : HostCall} {r : Except Fault Val}
    (hop : c.op (host, h) = (r, host', h')) : Marks host h c.spot? host' h' := by
  cases r with
  | error f =>
    cases (c.careful_op _ f _ hop).1
    exact .nothing
  | ok v =>
    cases c with
    | get target name =>
      obtain ⟨_, _, hheap, hok⟩ := exists_of_bind_ok hop
      cases hheap
      cases (eq_of_check_ok hok).2
      exact .nothing
    | set target name value =>
      obtain ⟨_, _, hset, hok⟩ := exists_of_bind_ok hop
      cases hok
      exact marks_setProperty hset
    | invoke target name args =>
      cases target with
      | type typeName => exact marks_invokeStatic hop
      | value v => exact marks_invokeOn hop
    | construct typeName args => exact marks_construct hop
    | load name =>
      obtain ⟨_, _, hload, hok⟩ := exists_of_bind_ok hop
      cases hok
      exact marks_load hload

end Marks

/-- Everything that was there is as it was, but for one spot. -/
structure SameBut (spot : Option Spot) (w w' : World) : Prop where
  /-- Only the heap and the host are concerned. -/
  aside : w' = { w with heap := w'.heap, host := w'.host }
  /-- The console keeps its lines, or gets one more. -/
  console : w'.host.console = w.host.console ∨
    spot = some .console ∧ ∃ line, w'.host.console = w.host.console.push line
  /-- The same assemblies are loaded. -/
  loaded : spot ≠ some .loaded → w'.host.loaded = w.host.loaded
  /-- Each array there was has the same elements. -/
  arrays : ∀ ref < w.heap.arrays.size, spot ≠ some (.array ref) →
    w'.heap.arrays[ref]? = w.heap.arrays[ref]?
  /-- Each map there was has the same entries. -/
  maps : ∀ ref < w.heap.maps.size, spot ≠ some (.map ref) →
    w'.heap.maps[ref]? = w.heap.maps[ref]?
  /-- Each object there was has the same fields. -/
  objects : ∀ ref < w.heap.objects.size, spot ≠ some (.object ref) →
    w'.heap.objects[ref]? = w.heap.objects[ref]?
  /-- Nothing is taken away. -/
  grows : w.heap.arrays.size ≤ w'.heap.arrays.size ∧ w.heap.maps.size ≤ w'.heap.maps.size ∧
    w.heap.objects.size ≤ w'.heap.objects.size

theorem SameBut.refl (spot : Option Spot) (w : World) : SameBut spot w w :=
  ⟨rfl, .inl rfl, fun _ => rfl, fun _ _ _ => rfl, fun _ _ _ => rfl, fun _ _ _ => rfl,
    Nat.le_refl _, Nat.le_refl _, Nat.le_refl _⟩

/-- A mark is found in its spot and nowhere else. -/
theorem Marks.sameBut {w : World} {spot : Option Spot} {host : Host} {h : Heap}
    (hmarks : Marks w.host w.heap spot host h) :
    SameBut spot w { w with heap := h, host := host } := by
  have hset : ∀ {α : Type} (xs : Array α) (ref other : Nat) (x : α), other ≠ ref →
      (xs.setIfInBounds ref x)[other]? = xs[other]? := fun xs ref other x hne => by
    rw [Array.getElem?_setIfInBounds_ne hne.symm]
  have hpush : ∀ {α : Type} (xs : Array α) (x : α), ∀ ref < xs.size,
      (xs.push x)[ref]? = xs[ref]? := fun xs x ref href => by
    rw [Array.getElem?_push_lt href, Array.getElem?_eq_getElem href]
  have hsame := SameBut.refl spot w
  cases hmarks with
  | nothing => exact hsame
  | line line => exact { hsame with aside := rfl, console := .inr ⟨rfl, line, rfl⟩ }
  | loading name => exact { hsame with aside := rfl, loaded := fun h => absurd rfl h }
  | items ref items =>
    exact { hsame with
      aside := rfl
      arrays := fun other _ hne => hset _ _ _ _ fun h => hne (by rw [h])
      grows := ⟨by simp [Heap.setItems], hsame.grows.2⟩ }
  | entries ref entries =>
    exact { hsame with
      aside := rfl
      maps := fun other _ hne => hset _ _ _ _ fun h => hne (by rw [h])
      grows := ⟨hsame.grows.1, by simp [Heap.setEntries], hsame.grows.2.2⟩ }
  | fields ref fields =>
    exact { hsame with
      aside := rfl
      objects := fun other _ hne => hset _ _ _ _ fun h => hne (by rw [h])
      grows := ⟨hsame.grows.1, hsame.grows.2.1, by simp [Heap.setFields]⟩ }
  | newArray items =>
    exact { hsame with
      aside := rfl
      arrays := fun ref href _ => hpush _ _ ref href
      grows := ⟨by simp [Heap.newArray], hsame.grows.2⟩ }
  | newMap =>
    exact { hsame with
      aside := rfl
      maps := fun ref href _ => hpush _ _ ref href
      grows := ⟨hsame.grows.1, by simp [Heap.newMap], hsame.grows.2.2⟩ }
  | newObject typeName =>
    exact { hsame with
      aside := rfl
      objects := fun ref href _ => hpush _ _ ref href
      grows := ⟨hsame.grows.1, hsame.grows.2.1, by simp [Heap.newObject]⟩ }

/-- The first of the items that pass a test is taken out, if one passes. -/
inductive TakesFirst (test : Val → Bool) (items : List Val) : Bool → List Val → Prop where
  /-- One passes, and none in front of it. -/
  | found {before after : List Val} {x : Val} (split : items = before ++ x :: after)
    (first : ∀ y ∈ before, test y = false) (passes : test x = true) :
    TakesFirst test items true (before ++ after)
  /-- None passes. -/
  | absent (none : ∀ y ∈ items, test y = false) : TakesFirst test items false items

/-- Two maps differ in the entry of one key at most. -/
structure SameButKey (key : Key) (entries entries' : List (Key × Val)) : Prop where
  /-- The other entries are the same, in the same order. -/
  others : (entries'.filter fun entry => entry.1 ≠ key) = entries.filter fun entry => entry.1 ≠ key
  /-- The other keys are found with the same values. -/
  lookups : ∀ k, k ≠ key → entries'.lookup k = entries.lookup k

section Collections

variable {h : Heap} {ref : Nat} {key : Key} {value : Val}

theorem items_setItems (href : ref < h.arrays.size) (items : List Val) :
    (h.setItems ref items).items ref = items := by
  simp [Heap.items, Heap.setItems, Array.getD_eq_getD_getElem?, href]

theorem entries_setEntries (href : ref < h.maps.size) (entries : List (Key × Val)) :
    (h.setEntries ref entries).entries ref = entries := by
  simp [Heap.entries, Heap.setEntries, Array.getD_eq_getD_getElem?, href]

theorem setEntries_of_size_le (href : h.maps.size ≤ ref) (entries : List (Key × Val)) :
    h.setEntries ref entries = h := by
  rw [Heap.setEntries, Array.setIfInBounds_eq_of_size_le href]

/-- An array that is nowhere in the heap has no elements. -/
theorem items_of_size_le (href : h.arrays.size ≤ ref) : h.items ref = [] := by
  simp [Heap.items, Array.getD_eq_getD_getElem?, href]

theorem takesFirst_removeFirst (h : Heap) (ref : Nat) (item : Val) :
    TakesFirst (h.equal · item) (h.items ref) (Host.removeFirst h ref item).1
      ((Host.removeFirst h ref item).2.items ref) := by
  unfold Host.removeFirst
  split
  · next i hi =>
    obtain ⟨hlt, hpasses, hfirst⟩ := List.findIdx?_eq_some_iff_getElem.mp hi
    have href : ref < h.arrays.size := by
      by_contra hge
      rw [items_of_size_le (Nat.le_of_not_lt hge)] at hlt
      exact absurd hlt (Nat.not_lt_zero _)
    rw [items_setItems href, List.eraseIdx_eq_take_drop_succ]
    refine .found ?_ ?_ hpasses
    · rw [List.getElem_cons_drop, List.take_append_drop]
    · intro y hy
      obtain ⟨j, hj, rfl⟩ := List.mem_take_iff_getElem.mp hy
      exact Bool.eq_false_iff.mpr (hfirst j (by omega))
  · next hnone => exact .absent (List.findIdx?_eq_none_iff.mp hnone)

theorem lookup_filter_ne {k : Key} (hk : k ≠ key) (entries : List (Key × Val)) :
    (entries.filter fun entry => entry.1 ≠ key).lookup k = entries.lookup k := by
  induction entries with
  | nil => rfl
  | cons entry rest ih =>
    obtain ⟨k', v⟩ := entry
    by_cases hk' : k' = key
    · have hne : (k == k') = false := beq_eq_false_iff_ne.mpr (hk' ▸ hk)
      rw [List.filter_cons_of_neg (by simpa using hk'), ih, List.lookup_cons, hne]
    · rw [List.filter_cons_of_pos (by simpa using hk'), List.lookup_cons, List.lookup_cons, ih]

/-- Maps whose other entries are the same are looked up alike. -/
theorem sameButKey_of_others {entries entries' : List (Key × Val)}
    (h : (entries'.filter fun entry => entry.1 ≠ key) = entries.filter fun entry => entry.1 ≠ key) :
    SameButKey key entries entries' :=
  ⟨h, fun k hk => by rw [← lookup_filter_ne hk, h, lookup_filter_ne hk]⟩

theorem sameButKey_putSorted (key : Key) (value : Val) (entries : List (Key × Val)) :
    SameButKey key entries (putSorted Key.before key value entries) := by
  refine sameButKey_of_others ?_
  fun_induction putSorted Key.before key value entries with
  | case1 => simp
  | case2 v rest => simp
  | case3 k v rest hne hbefore => simp
  | case4 k v rest hne hbefore ih =>
    rw [List.filter_cons_of_pos (by simpa using hne), List.filter_cons_of_pos (by simpa using hne),
      ih]

theorem lookup_putSorted (key : Key) (value : Val) (entries : List (Key × Val)) :
    (putSorted Key.before key value entries).lookup key = some value := by
  fun_induction putSorted Key.before key value entries with
  | case1 => simp
  | case2 v rest => simp
  | case3 k v rest hne hbefore => simp
  | case4 k v rest hne hbefore ih =>
    rw [List.lookup_cons, beq_eq_false_iff_ne.mpr (Ne.symm hne)]
    exact ih

theorem lookup_filter_self (key : Key) (entries : List (Key × Val)) :
    (entries.filter fun entry => entry.1 ≠ key).lookup key = none := by
  refine List.lookup_eq_none_iff.mpr fun entry hentry => ?_
  have hne : entry.1 ≠ key := by simpa using (List.mem_filter.mp hentry).2
  exact bne_iff_ne.mpr hne.symm

/-- The entries that are left, also if there is no such map. -/
theorem entries_removeEntry (h : Heap) (ref : Nat) (key : Key) :
    (h.removeEntry ref key).entries ref = (h.entries ref).filter fun entry => entry.1 ≠ key := by
  by_cases href : ref < h.maps.size
  · exact entries_setEntries href _
  · have hempty : h.entries ref = [] := by
      simp [Heap.entries, Array.getD_eq_getD_getElem?, Nat.le_of_not_lt href]
    rw [Heap.removeEntry, setEntries_of_size_le (Nat.le_of_not_lt href), hempty]
    rfl

theorem sameButKey_putEntry (h : Heap) (ref : Nat) (key : Key) (value : Val) :
    SameButKey key (h.entries ref) ((h.putEntry ref key value).entries ref) := by
  by_cases href : ref < h.maps.size
  · rw [Heap.putEntry, entries_setEntries href]
    exact sameButKey_putSorted key value _
  · rw [Heap.putEntry, setEntries_of_size_le (Nat.le_of_not_lt href)]
    exact sameButKey_of_others rfl

end Collections

section Members

variable (host : Host) (h : Heap) (ref : Nat) (args : List Val)

/-- Removing from an array takes its only argument out. -/
theorem op_arrayRemove :
    (∃ item found h', args = [item] ∧
      (invoke (.value (.array ref)) "Remove" args).op (host, h) = (.ok (.bool found), host, h') ∧
      TakesFirst (h.equal · item) (h.items ref) found (h'.items ref)) ∨
    args.length ≠ 1 ∧
      ∃ f s, (invoke (.value (.array ref)) "Remove" args).op (host, h) = (.error f, s) := by
  match args with
  | [item] => exact .inl ⟨item, _, _, rfl, rfl, takesFirst_removeFirst h ref item⟩
  | [] => exact .inr ⟨nofun, _, _, rfl⟩
  | _ :: _ :: _ => exact .inr ⟨by simp, _, _, rfl⟩

/-- Adding to a map gives a key that the map does not have its value. -/
theorem op_mapAdd :
    (∃ k value key h', args = [k, value] ∧ k.asKey? = some key ∧
      (h.entries ref).lookup key = none ∧
      (invoke (.value (.map ref)) "Add" args).op (host, h) = (.ok .null, host, h') ∧
      SameButKey key (h.entries ref) (h'.entries ref) ∧
      (ref < h.maps.size → (h'.entries ref).lookup key = some value)) ∨
    (∀ k value key, args = [k, value] → k.asKey? = some key →
      (h.entries ref).lookup key ≠ none) ∧
      ∃ f s, (invoke (.value (.map ref)) "Add" args).op (host, h) = (.error f, s) := by
  match args with
  | [k, value] =>
    have hop : (invoke (.value (.map ref)) "Add" [k, value]).op (host, h) =
        ((liftM (Host.keyOf k) : Host.Op Key) >>= fun key =>
          if ((h.entries ref).lookup key).isSome then throw (.keyPresent key)
          else do
            Host.Op.changeHeap (·.putEntry ref key value)
            pure .null : Host.Op Val) (host, h) := by
      show ((liftM (Host.keyOf k) : Host.Op Key) >>= _ : Host.Op Val) (host, h) = _
      rw [Host.Op.bind_apply, Host.Op.bind_apply]
      cases Host.keyOf k <;> rfl
    rw [hop, Host.keyOf]
    cases hkey : k.asKey? with
    | none =>
      refine .inr ⟨?_, _, _, rfl⟩
      rintro _ _ _ ⟨⟩ hsome
      rw [hkey] at hsome
      cases hsome
    | some key =>
      cases hlookup : (h.entries ref).lookup key with
      | some old =>
        refine .inr ⟨?_, .keyPresent key, (host, h), ?_⟩
        · rintro _ _ _ ⟨⟩ hsome
          rw [hkey] at hsome
          cases hsome
          rw [hlookup]
          exact nofun
        · show (if _ then _ else _ : Host.Op Val) _ = _
          rw [hlookup]
          rfl
      | none =>
        refine .inl ⟨k, value, key, h.putEntry ref key value, rfl, hkey, hlookup, ?_, ?_, ?_⟩
        · show (if _ then _ else _ : Host.Op Val) _ = _
          rw [hlookup]
          rfl
        · exact sameButKey_putEntry h ref key value
        · intro href
          rw [Heap.putEntry, entries_setEntries href]
          exact lookup_putSorted _ _ _
  | [] =>
    refine .inr ⟨fun _ _ _ hargs => ?_, _, _, rfl⟩
    cases hargs
  | [_] =>
    refine .inr ⟨fun _ _ _ hargs => ?_, _, _, rfl⟩
    cases hargs
  | _ :: _ :: _ :: _ =>
    refine .inr ⟨fun _ _ _ hargs => ?_, _, _, rfl⟩
    cases hargs

/-- Removing from a map takes a key out, and tells whether the map had it. -/
theorem op_mapRemove :
    (∃ k key h', args = [k] ∧ k.asKey? = some key ∧
      (invoke (.value (.map ref)) "Remove" args).op (host, h) =
        (.ok (.bool ((h.entries ref).lookup key).isSome), host, h') ∧
      SameButKey key (h.entries ref) (h'.entries ref) ∧ (h'.entries ref).lookup key = none) ∨
    (∀ k, args = [k] → k.asKey? = none) ∧
      ∃ f s, (invoke (.value (.map ref)) "Remove" args).op (host, h) = (.error f, s) := by
  match args with
  | [k] =>
    have hop : (invoke (.value (.map ref)) "Remove" [k]).op (host, h) =
        ((liftM (Host.keyOf k) : Host.Op Key) >>= fun key => do
          let found ← Host.Op.fromHeap fun h =>
            (((h.entries ref).lookup key).isSome, h.removeEntry ref key)
          pure (.bool found) : Host.Op Val) (host, h) := rfl
    rw [hop, Host.keyOf]
    cases hkey : k.asKey? with
    | none =>
      refine .inr ⟨?_, _, _, rfl⟩
      rintro _ ⟨⟩
      exact hkey
    | some key =>
      refine .inl ⟨k, key, _, rfl, hkey, rfl, ?_⟩
      rw [entries_removeEntry]
      exact ⟨sameButKey_of_others (by simp), lookup_filter_self key _⟩
  | [] =>
    refine .inr ⟨fun _ hargs => ?_, _, _, rfl⟩
    cases hargs
  | _ :: _ :: _ =>
    refine .inr ⟨fun _ hargs => ?_, _, _, rfl⟩
    cases hargs

/-- Loading adds a name to those that are loaded. -/
theorem isLoaded_load {host host' : Host} {h h' : Heap} {name : String}
    (hload : Host.Op.load name (host, h) = (.ok (), host', h')) (other : String) :
    host'.isLoaded other = true ↔ host.isLoaded other = true ∨ name = other := by
  unfold Host.Op.load at hload
  split at hload
  · cases hload
    dsimp only [Host.isLoaded]
    split
    · next hin =>
      refine ⟨.inl, ?_⟩
      rintro (hother | rfl)
      · exact hother
      · exact hin
    · simp only [List.contains_cons, Bool.or_eq_true, beq_iff_eq]
      exact ⟨fun h => h.symm.imp_right Eq.symm, fun h => h.symm.imp_left Eq.symm⟩
  · cases hload

end Members

/-- What the call of the host from one world to another may do, given what it ends with. -/
structure Confined (c : HostCall) (w w' : World) (r : Except Unwind Val) : Prop where
  /-- A call that fails changes nothing. -/
  failed : ∀ u, r = .error u → w' = w
  /-- A call changes at most the spot that is its own. -/
  within : SameBut c.spot? w w'
  /-- Loading adds the name of the assembly, and nothing else does. -/
  loads : ∀ name, w'.host.isLoaded name = true ↔
    w.host.isLoaded name = true ∨ c = .load name ∧ ∃ v, r = .ok v
  /-- Removing from an array takes out the first element that is equal to the argument, and tells
  whether there was one. -/
  arrayRemove : ∀ ref args, c = .invoke (.value (.array ref)) "Remove" args →
    (∃ item found, args = [item] ∧ r = .ok (.bool found) ∧
      TakesFirst (w.heap.equal · item) (w.heap.items ref) found (w'.heap.items ref)) ∨
    args.length ≠ 1 ∧ ∃ u, r = .error u
  /-- Adding to a map makes an entry for a key that has none. -/
  mapAdd : ∀ ref args, c = .invoke (.value (.map ref)) "Add" args →
    (∃ k value key, args = [k, value] ∧ k.asKey? = some key ∧
      (w.heap.entries ref).lookup key = none ∧ r = .ok .null ∧
      SameButKey key (w.heap.entries ref) (w'.heap.entries ref) ∧
      (ref < w.heap.maps.size → (w'.heap.entries ref).lookup key = some value)) ∨
    (∀ k value key, args = [k, value] → k.asKey? = some key →
      (w.heap.entries ref).lookup key ≠ none) ∧ ∃ u, r = .error u
  /-- Removing from a map takes out the entry of a key, and tells whether there was one. -/
  mapRemove : ∀ ref args, c = .invoke (.value (.map ref)) "Remove" args →
    (∃ k key, args = [k] ∧ k.asKey? = some key ∧
      r = .ok (.bool ((w.heap.entries ref).lookup key).isSome) ∧
      SameButKey key (w.heap.entries ref) (w'.heap.entries ref) ∧
      (w'.heap.entries ref).lookup key = none) ∨
    (∀ k, args = [k] → k.asKey? = none) ∧ ∃ u, r = .error u

/-- Only loading can mark what is loaded. -/
theorem spot?_eq_loaded {c : HostCall} (h : c.spot? = some .loaded) : ∃ name, c = .load name := by
  unfold spot? at h
  split at h <;> simp_all

theorem settle_failed {c : HostCall} {w : World} {u : Unwind}
    (h : (settle w (c.op (w.host, w.heap))).2 = .error u) :
    (settle w (c.op (w.host, w.heap))).1 = w := by
  rcases hop : c.op (w.host, w.heap) with ⟨f | v, s⟩
  · cases (c.careful_op _ f _ hop).1
    rfl
  · rw [hop] at h
    cases h

theorem settle_sameBut (c : HostCall) (w : World) :
    SameBut c.spot? w (settle w (c.op (w.host, w.heap))).1 := by
  rcases hop : c.op (w.host, w.heap) with ⟨f | v, host, heap⟩
  · exact (marks_op hop).sameBut
  · exact (marks_op hop).sameBut

theorem settle_loads (c : HostCall) (w : World) (name : String) :
    (settle w (c.op (w.host, w.heap))).1.host.isLoaded name = true ↔
      w.host.isLoaded name = true ∨
        c = .load name ∧ ∃ v, (settle w (c.op (w.host, w.heap))).2 = .ok v := by
  by_cases hload : ∃ loading, c = .load loading
  · obtain ⟨loading, rfl⟩ := hload
    rcases hop : (HostCall.load loading).op (w.host, w.heap) with ⟨f | v, host, heap⟩
    · cases (careful_op _ _ f _ hop).1
      exact ⟨.inl, fun h => h.resolve_right fun ⟨_, _, hv⟩ => nomatch hv⟩
    · obtain ⟨_, _, hloaded, hok⟩ := exists_of_bind_ok hop
      cases hok
      refine (isLoaded_load hloaded name).trans (or_congr_right ?_)
      exact ⟨fun h => ⟨by rw [h], _, rfl⟩, fun h => HostCall.load.inj h.1⟩
  · have hspot : c.spot? ≠ some .loaded := fun h => hload (spot?_eq_loaded h)
    have hsame := (settle_sameBut c w).loaded hspot
    rw [Host.isLoaded, hsame]
    exact ⟨.inl, fun h => h.resolve_right fun hc => hload ⟨name, hc.1⟩⟩

/-- Calls of the host are atomic, and their effects are local. -/
theorem host_calls_atomic_and_local (c : HostCall) (w : World) :
    ∃ w' r, c.perform w = .done w' r ∧ c.Confined w w' r := by
  refine ⟨_, _, perform_eq c w, ?_⟩
  refine
    { failed := fun _ => settle_failed
      within := settle_sameBut c w
      loads := settle_loads c w
      arrayRemove := ?_
      mapAdd := ?_
      mapRemove := ?_ }
  · rintro ref args rfl
    rcases op_arrayRemove w.host w.heap ref args with
      ⟨item, found, h', hargs, hop, htakes⟩ | ⟨hargs, f, s, hop⟩
    · rw [hop]
      exact .inl ⟨item, found, hargs, rfl, htakes⟩
    · rw [hop]
      exact .inr ⟨hargs, _, rfl⟩
  · rintro ref args rfl
    rcases op_mapAdd w.host w.heap ref args with
      ⟨k, value, key, h', hargs, hkey, hnone, hop, hsame⟩ | ⟨hargs, f, s, hop⟩
    · rw [hop]
      exact .inl ⟨k, value, key, hargs, hkey, hnone, rfl, hsame⟩
    · rw [hop]
      exact .inr ⟨hargs, _, rfl⟩
  · rintro ref args rfl
    rcases op_mapRemove w.host w.heap ref args with
      ⟨k, key, h', hargs, hkey, hop, hsame⟩ | ⟨hargs, f, s, hop⟩
    · rw [hop]
      exact .inl ⟨k, key, hargs, hkey, rfl, hsame⟩
    · rw [hop]
      exact .inr ⟨hargs, _, rfl⟩

end HostCall

end Stepwise
