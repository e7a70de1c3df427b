import Stepwise.Program.Construct
import Stepwise.Proofs.Session.Requests

/-!
# Sessions at rest

Whatever the host has asked for, in whatever order, a session in which nothing
goes on by itself neither runs nor prepares a program. If everything that was
called has ended, nothing is in flight; otherwise the worker waits at the gate
and the session is paused.
-/

namespace Stepwise.Session

/-- The number that a request gives to the task it begins. -/
def Move.ticket? : Move → Option Nat
  | .start n .. | .invoke n .. | .stop n => some n
  | _ => none

/-- The numbers that requests have given. -/
def tickets (requests : List Move) : List Nat := requests.filterMap Move.ticket?

/-- The numbers of the tasks that have begun. -/
def numbers (s : Session) : List Nat := s.tasks.map (·.ticket) ++ s.endings.map (·.ticket)

/-- What is asked for begins, and nothing that has begun is forgotten. -/
structure Recalls (s : Session) (asked : List Nat) (s' : Session) : Prop where
  /-- Only what is asked for begins. -/
  tasks : ∀ k ∈ s'.tasks.map (·.ticket), k ∈ s.tasks.map (·.ticket) ∨ k ∈ asked
  /-- It has begun then, like whatever has begun before. -/
  numbers : ∀ k, k ∈ s.numbers ∨ k ∈ asked → k ∈ s'.numbers

section Recalls

variable {s s' s'' : Session} {asked more : List Nat}

theorem Recalls.trans (h : s.Recalls asked s') (h' : s'.Recalls more s'') :
    s.Recalls (asked ++ more) s'' := by
  refine ⟨fun k hk => ?_, fun k hk => ?_⟩
  · rw [List.mem_append, ← or_assoc]
    exact (h'.tasks k hk).imp (h.tasks k) id
  · rw [List.mem_append, ← or_assoc] at hk
    exact h'.numbers k (hk.imp (h.numbers k) id)

theorem Recalls.still (h : s.Recalls asked s') (h' : s'.Recalls [] s'') : s.Recalls asked s'' :=
  List.append_nil asked ▸ h.trans h'

/-- Tasks go on. -/
theorem recalls_of_eq (htasks : s'.tasks.map (·.ticket) = s.tasks.map (·.ticket))
    (hendings : s'.endings = s.endings) : s.Recalls [] s' := by
  refine ⟨fun k hk => .inl (htasks ▸ hk), fun k hk => ?_⟩
  rw [numbers, htasks, hendings]
  exact hk.resolve_right List.not_mem_nil

theorem Recalls.refl (s : Session) : s.Recalls [] s := recalls_of_eq rfl rfl

theorem recalls_mapControls (s : Session) (f : Controls → Controls) :
    s.Recalls [] (s.mapControls f) := recalls_of_eq rfl rfl

theorem recalls_setStage (s : Session) (n : Nat) (stage : Stage) :
    s.Recalls [] (s.setStage n stage) :=
  recalls_of_eq (map_ticket_setStage n stage) rfl

/-- A task ends, or is refused at once. -/
theorem recalls_finish (s : Session) {n : Nat} (h : ∀ k ∈ asked, k = n) (kind : TaskKind)
    (begun : Bool) (result : Except SessionError Val) :
    s.Recalls asked (s.finish n kind begun result) := by
  refine ⟨fun k hk => .inl ?_, fun k hk => ?_⟩
  · obtain ⟨t, ht, rfl⟩ := List.mem_map.mp hk
    exact List.mem_map_of_mem (List.mem_of_mem_filter ht)
  · rw [numbers, finish, List.map_append, ← List.append_assoc, List.mem_append]
    by_cases hkn : k = n
    · exact .inr (List.mem_singleton.mpr hkn)
    · rcases List.mem_append.mp (hk.resolve_right fun hasked => hkn (h k hasked)) with hk | hk
      · obtain ⟨t, ht, rfl⟩ := List.mem_map.mp hk
        refine .inl (List.mem_append_left _ (List.mem_map_of_mem ?_))
        exact List.mem_filter.mpr ⟨ht, decide_eq_true hkn⟩
      · exact .inl (List.mem_append_right _ hk)

/-- A task begins. -/
theorem recalls_begin (task : Task) (htasks : s'.tasks = s.tasks ++ [task])
    (hendings : s'.endings = s.endings) : s.Recalls [task.ticket] s' := by
  have hmap : s'.tasks.map (·.ticket) = s.tasks.map (·.ticket) ++ [task.ticket] := by
    rw [htasks, List.map_append]
    rfl
  refine ⟨fun k hk => ?_, fun k hk => ?_⟩
  · rw [hmap] at hk
    exact List.mem_append.mp hk
  · rw [numbers, hmap, hendings]
    rw [numbers, List.mem_append] at hk
    simp only [List.mem_append]
    rcases hk with (hk | hk) | hk
    · exact .inl (.inl hk)
    · exact .inr hk
    · exact .inl (.inr hk)

/-- The worker reports. -/
theorem recalls_receive (s : Session) (report : Report) : s.Recalls [] (s.receive report) := by
  have hends : ∀ (s : Session) n result, s.Recalls [] (s.finish n .entry true result) :=
    fun s n => s.recalls_finish (List.forall_mem_nil _) _ _
  cases report with
  | ended ticket outcome =>
    cases ticket with
    | none => exact .refl _
    | some ticket =>
      simp only [receive]
      split
      · exact ((s.recalls_mapControls _).still (recalls_mapControls _ _)).still
          (recalls_setStage _ _ _)
      · exact .refl _
  | prepared ticket args outcome =>
    rcases outcome with (f | _) | ⟨code, entry⟩
    · have hfailed : s.Recalls [] (s.mapControls (·.fail f)).turnAway := recalls_of_eq rfl rfl
      exact hfailed.still (hends _ ticket _)
    · exact hends s ticket _
    · simp only [receive]
      split
      · refine recalls_of_eq (map_ticket_map fun t => ?_) rfl
        split <;> rfl
      · have hstack : s.Recalls [] { s with code := some code, world := s.world.newStack } :=
          recalls_of_eq rfl rfl
        exact ((hstack.still (recalls_mapControls _ _)).still (recalls_mapControls _ _)).still
          (hends _ ticket _)

theorem recalls_absorb (s : Session) (x : Run Report) : s.Recalls [] (s.absorb x) := by
  cases x with
  | exhausted => exact recalls_of_eq rfl rfl
  | held w resume => exact recalls_of_eq rfl rfl
  | done w r =>
    have hdone : s.Recalls [] { s with world := w, worker := .free } := recalls_of_eq rfl rfl
    cases r with
    | error u => exact hdone
    | ok report => exact hdone.still (recalls_receive _ report)

theorem recalls_advance {t : Task} (h : s.advance? t = some s') : s.Recalls [] s' := by
  have hdrained : s.Recalls [] (s.mapTracker (·.drain t.stack)).refreshIdle :=
    (s.recalls_mapControls _).still (recalls_mapControls _ _)
  obtain ⟨result, -, -, -, -, rfl⟩ | ⟨result, -, -, -, rfl⟩ | ⟨result, -, -, rfl⟩ :=
    advance?_cases h
  · exact (hdrained.still (recalls_mapControls _ _)).still (recalls_setStage _ _ _)
  · exact hdrained.still (recalls_finish _ (List.forall_mem_nil _) _ _ _)
  · exact ((s.recalls_mapControls _).still (recalls_mapControls _ _)).still
      (recalls_finish _ (List.forall_mem_nil _) _ _ _)

/-- A session goes on by itself. -/
theorem recalls_goes {m : Move} (hown : m.isOwn = true) : s.Recalls [] (s.perform m) := by
  rcases perform_own_cases hown with hsame | ⟨t, -, hadvance⟩ | hwork
  · exact recalls_of_eq (by rw [hsame]) (by rw [hsame])
  · exact recalls_advance hadvance
  · rw [work?_eq_map] at hwork
    obtain ⟨x, -, hx⟩ := Option.map_eq_some_iff.mp hwork
    exact hx ▸ s.recalls_absorb x

/-- Something is asked for. -/
theorem recalls_asks (s : Session) {m : Move} (hrequest : m.isOwn = false) :
    s.Recalls m.ticket?.toList (s.perform m) := by
  have hrefused : ∀ n kind result, s.Recalls [n] (s.finish n kind false result) :=
    fun n kind => s.recalls_finish (fun k hk => List.mem_singleton.mp hk) kind false
  cases m with
  | start n debugging args =>
    show s.Recalls [n] (s.start n debugging args)
    rw [start_eq]
    split
    · have hopened : s.Recalls [n] (s.opened n debugging) :=
        recalls_begin ⟨n, .entry, 0, .working⟩ rfl rfl
      exact hopened.still (recalls_absorb _ _)
    · exact hrefused n _ _
  | invoke n hostInitiated name args =>
    show s.Recalls [n] (s.invoke n hostInitiated name args)
    unfold invoke
    dsimp only
    split
    · exact hrefused n _ _
    split
    · exact hrefused n _ _
    split
    · exact hrefused n _ _
    · rename_i m _
      exact recalls_begin ⟨n, .invocation hostInitiated m.isAsync, s.world.stackCount, .working⟩
        rfl rfl
  | stop n => exact recalls_begin ⟨n, .stop, 0, .stopping (.ok .null)⟩ rfl rfl
  | pause => exact s.perform_pause ▸ recalls_of_eq rfl rfl
  | step => exact s.perform_step ▸ recalls_of_eq rfl rfl
  | resume => exact s.perform_resume ▸ recalls_of_eq rfl rfl
  | advance | work => cases hrequest
  | _ => exact recalls_of_eq rfl rfl

end Recalls

/-- A session that is asked for something only when nothing goes on, and that
has been asked for this so far. Meanwhile tasks and worker take turns in any
order. Preparing the program does not come to wait at the gate. -/
inductive Served (p : Program) (config : Config) (fuel : Nat) : List Move → Session → Prop where
  /-- Nothing has been asked for. -/
  | new : Served p config fuel [] (Session.new p config fuel)
  /-- A task or the worker takes its turn. -/
  | goes {requests : List Move} {s : Session} (m : Move) (hown : m.isOwn = true) :
    Served p config fuel requests s → Served p config fuel requests (s.perform m)
  /-- Something is asked for, with a number that has not been given to anything else. -/
  | asks {requests : List Move} {s : Session} (m : Move) (hrequest : m.isOwn = false)
    (hnew : ∀ n ∈ m.ticket?, n ∉ tickets requests) (hsettled : s.Settled)
    (hpasses : s.phase = .ready → (s.perform m).worker.isHeld = false) :
    Served p config fuel requests s → Served p config fuel (requests ++ [m]) (s.perform m)

section Served

variable {p : Program} {config : Config} {fuel : Nat} {requests : List Move} {s : Session}

/-- Tasks and worker go on. -/
theorem Served.after (h : Served p config fuel requests s) {moves : List Move}
    (hown : ∀ m ∈ moves, m.isOwn = true) : Served p config fuel requests (s.after moves) := by
  induction moves generalizing s with
  | nil => exact h
  | cons m moves ih =>
    obtain ⟨hm, hmoves⟩ := List.forall_mem_cons.mp hown
    exact ih (h.goes m hm) hmoves

/-- Tasks and worker go on until nothing moves any more. -/
theorem Served.settle (h : Served p config fuel requests s) (rounds : Nat) :
    Served p config fuel requests (Session.settle rounds s) := by
  obtain ⟨moves, hown, hsettle⟩ := settle_eq_after rounds s
  rw [hsettle]
  exact h.after hown

theorem Served.exists_after (h : Served p config fuel requests s) :
    ∃ moves, s = (Session.new p config fuel).after moves := by
  induction h with
  | new => exact ⟨[], rfl⟩
  | goes m _ _ ih | asks m _ _ _ _ _ ih =>
    obtain ⟨moves, rfl⟩ := ih
    exact ⟨moves ++ [m], (after_append _ moves [m]).symm⟩

/-- A session that has ended turns engines away. -/
theorem Served.sealed (h : Served p config fuel requests s) : s.world.controls.Sealed := by
  obtain ⟨moves, rfl⟩ := h.exists_after
  obtain ⟨acts, hchanges, -⟩ := changes_after p config fuel moves
  exact hchanges.sealed fun hended => nomatch hended

/-- Every number that a request has given is that of a task. -/
theorem Served.recalls (h : Served p config fuel requests s) :
    (Session.new p config fuel).Recalls (tickets requests) s := by
  induction h with
  | new => exact .refl _
  | goes m hown _ ih => exact ih.still (recalls_goes hown)
  | @asks requests s m hrequest hnew _ _ _ ih =>
    have happend : tickets (requests ++ [m]) = tickets requests ++ m.ticket?.toList := by
      unfold tickets
      rw [List.filterMap_append]
      cases h : m.ticket? <;> simp [h]
    rw [happend]
    exact ih.trans (s.recalls_asks hrequest)

theorem Served.ticket_notMem (h : Served p config fuel requests s) {n : Nat}
    (hn : n ∉ tickets requests) : n ∉ s.tasks.map (·.ticket) :=
  fun hmem => (h.recalls.tasks n hmem).elim List.not_mem_nil hn

theorem kept_new (p : Program) (config : Config) (fuel : Nat) :
    (Session.new p config fuel).Kept none :=
  ⟨⟨Books.new, trivial, nofun, fun _ => rfl, nofun, nofun⟩, nofun⟩

/-- A task or the worker takes its turn. -/
theorem Kept.goes {inHand : Option Duty} (h : s.Kept inHand) (hsealed : s.world.controls.Sealed)
    {m : Move} (hown : m.isOwn = true) :
    (s.perform m).worker = .lost ∨ ∃ inHand, (s.perform m).Kept inHand := by
  rcases perform_own_cases hown with hsame | ⟨t, ht, hadvance⟩ | hwork
  · rw [hsame]
    exact .inr ⟨inHand, h⟩
  · exact .inr ⟨inHand, h.advance ht hadvance⟩
  · exact h.work hsealed hwork

/-- Tasks go on without the worker. -/
theorem worker_advance {s' : Session} {t : Task} (h : s.advance? t = some s') :
    s'.worker = s.worker := by
  obtain ⟨_, -, -, -, -, rfl⟩ | ⟨_, -, -, -, rfl⟩ | ⟨_, -, -, rfl⟩ := advance?_cases h
  · rfl
  · rfl
  · rfl

/-- A worker that is lost takes no more turns. -/
theorem lost_goes (h : s.worker = .lost) {m : Move} (hown : m.isOwn = true) :
    (s.perform m).worker = .lost := by
  rcases perform_own_cases hown with hsame | ⟨t, -, hadvance⟩ | hwork
  · rw [hsame]
    exact h
  · exact (worker_advance hadvance).trans h
  · simp [work?, h] at hwork

/-- Something is asked for. -/
theorem Kept.asks {inHand : Option Duty} (h : s.Kept inHand) (hs : s.Settled) {m : Move}
    (hrequest : m.isOwn = false) (hnew : ∀ n ∈ m.ticket?, n ∉ s.tasks.map (·.ticket))
    (hpasses : s.phase = .ready → (s.perform m).worker.isHeld = false) :
    (s.perform m).worker = .lost ∨ ∃ inHand, (s.perform m).Kept inHand := by
  cases m with
  | start n debugging args => exact h.start hs (hnew n rfl) debugging args hpasses
  | invoke n hostInitiated name args =>
    exact .inr ⟨inHand, h.invoke (hnew n rfl) hostInitiated name args⟩
  | stop n => exact .inr ⟨inHand, h.stop (hnew n rfl)⟩
  | pause => exact .inr ⟨inHand, s.perform_pause ▸ h.pause hs⟩
  | step => exact .inr ⟨inHand, s.perform_step ▸ h.step⟩
  | resume => exact .inr ⟨inHand, s.perform_resume ▸ h.resume⟩
  | setBreakpoint line => exact .inr ⟨inHand, h.breakpoints _⟩
  | clearBreakpoint line => exact .inr ⟨inHand, h.breakpoints _⟩
  | clearBreakpoints => exact .inr ⟨inHand, h.breakpoints _⟩
  | values heap =>
    exact .inr ⟨inHand, ⟨h.books, h.worker, h.begun, h.coded, h.prepared, h.held⟩, h.busy⟩
  | advance | work => cases hrequest

theorem Served.kept (h : Served p config fuel requests s) :
    s.worker = .lost ∨ ∃ inHand, s.Kept inHand := by
  induction h with
  | new => exact .inr ⟨none, kept_new p config fuel⟩
  | goes m hown hserved ih =>
    rcases ih with hlost | ⟨inHand, hkept⟩
    · exact .inl (lost_goes hlost hown)
    · exact hkept.goes hserved.sealed hown
  | asks m hrequest hnew hsettled hpasses hserved ih =>
    obtain ⟨inHand, hkept⟩ := ih.resolve_left hsettled.found
    exact hkept.asks hsettled hrequest (fun n hn => hserved.ticket_notMem (hnew n hn)) hpasses

end Served

/-- Whether a request runs a method of the program: its entry point, or one by name. -/
def Move.isCall : Move → Bool
  | .start .. | .invoke .. => true
  | _ => false

/-- The task of a number has ended. -/
def HasEnded (s : Session) (n : Nat) : Prop := n ∈ s.endings.map (·.ticket)

instance (s : Session) (n : Nat) : Decidable (s.HasEnded n) :=
  inferInstanceAs (Decidable (n ∈ s.endings.map (·.ticket)))

/-- Every invocation that nobody waits for has run. -/
structure AllRun (s : Session) : Prop where
  /-- None waits for its turn. -/
  turns : ∀ job ∈ s.world.jobs, job.ticket ≠ none
  /-- None has come to wait at the gate. -/
  gate : s.worker.isHeld = false

/-- The worker waits at the gate of a paused session. -/
structure Blocked (s : Session) : Prop where
  /-- The session is paused. -/
  paused : s.phase = .paused
  /-- An engine waits. -/
  worker : s.worker.isHeld = true
  /-- The gate does not let it leave. -/
  gate : s.world.controls.leave? = none

/-- What can be told of a session that has been asked for this, when nothing goes on. -/
structure Rests (s : Session) (requests : List Move) : Prop where
  /-- It neither prepares a program nor runs one. -/
  still : s.phase ≠ .preparing ∧ s.phase ≠ .running
  /-- When everything that was called has ended, nothing is in flight. -/
  finished : (∀ m ∈ requests, m.isCall = true → ∀ n ∈ m.ticket?, s.HasEnded n) → s.AllRun →
    s.phase ∈ [Phase.ready, .idle, .paused, .stopped, .failed] ∧
      s.world.controls.tracker.isQuiet = true
  /-- While something has not ended, an engine waits at the gate. -/
  unfinished : (∃ n ∈ tickets requests, ¬ s.HasEnded n) ∨ ¬ s.AllRun → s.Blocked

/-- Quiescence is never missed: whatever a session has been asked for, once
nothing goes on it has come to rest, or an engine waits at the gate. -/
theorem settled_rests {p : Program} {config : Config} {fuel : Nat} {requests : List Move}
    {s : Session} (h : Served p config fuel requests s) (hs : s.Settled) : s.Rests requests := by
  obtain ⟨inHand, hkept⟩ := h.kept.resolve_left hs.found
  have hrunning := hkept.ne_running hs
  refine ⟨⟨hkept.prepared, hrunning⟩, fun _ hall => ?_, fun hsome => ?_⟩
  · cases inHand with
    | some d =>
      cases hall.gate.symm.trans (hkept.paused hs).2.1
    | none =>
      refine ⟨?_, (hkept.quiet hs).2.2.2⟩
      have hprepared := hkept.prepared
      cases hphase : s.phase <;> simp_all
  · cases inHand with
    | some d =>
      obtain ⟨hpaused, hheld, hwaits⟩ := hkept.paused hs
      exact ⟨hpaused, hheld, hwaits⟩
    | none =>
      obtain ⟨hworker, hjobs, htasks, -⟩ := hkept.quiet hs
      rcases hsome with ⟨n, hn, hopen⟩ | hsome
      · have hnumber := h.recalls.numbers n (.inr hn)
        rw [numbers, htasks] at hnumber
        exact absurd hnumber hopen
      · refine absurd ⟨?_, ?_⟩ hsome
        · rw [hjobs]
          exact List.forall_mem_nil _
        · rw [hworker]
          rfl

/-- A program whose entry point leaves an invocation behind that nobody waits for. -/
def parting : Program :=
  { (Program.empty.addMethod ((Method.start "Main").asEntryPoint.withBody
      [.eval (.call "Later" [] Span.blank) Span.blank])).addMethod
        ((Method.start "Later").asAsync.withBody [.eval (.literal .null Span.blank) Span.blank])
    with lowered := true }

/-- That program, asked for this and left to itself each time. -/
def parted (requests : List Move) : Session :=
  requests.foldl (fun s m => settle 9 (s.perform m)) (new parting { keepAlive := true } 9)

theorem served_parted {requests : List Move}
    (h : Served parting { keepAlive := true } 9 requests (parted requests)) (m : Move)
    (hrequest : m.isOwn = false) (hnew : ∀ n ∈ m.ticket?, n ∉ tickets requests)
    (hsettled : (parted requests).Settled)
    (hpasses : (parted requests).phase = .ready →
      ((parted requests).perform m).worker.isHeld = false) :
    Served parting { keepAlive := true } 9 (requests ++ [m]) (parted (requests ++ [m])) := by
  rw [parted, List.foldl_append]
  exact (h.asks m hrequest hnew hsettled hpasses).settle 9

/-- Held before it is started, it is granted its first statement and waits with
the invocation that it has left behind; released, it comes to rest. -/
theorem parting_rests :
    (parted [.pause, .start 0 false [], .step]).Blocked ∧
      (parted [.pause, .start 0 false [], .step, .resume]).world.controls.tracker.isQuiet := by
  have hpause := served_parted .new .pause rfl nofun (by decide +kernel) (by decide +kernel)
  have hstart := served_parted hpause (.start 0 false []) rfl (by decide +kernel)
    (by decide +kernel) (by decide +kernel)
  have hstep := served_parted hstart .step rfl nofun (by decide +kernel) (by decide +kernel)
  have hresume := served_parted hstep .resume rfl nofun (by decide +kernel) (by decide +kernel)
  have hblocked := (settled_rests hstep (by decide +kernel)).unfinished
    (.inl ⟨0, by decide +kernel, by decide +kernel⟩)
  have hquiet := (settled_rests hresume (by decide +kernel)).finished (by decide +kernel)
    ⟨by decide +kernel, by decide +kernel⟩
  exact ⟨hblocked, hquiet.2⟩

end Stepwise.Session
