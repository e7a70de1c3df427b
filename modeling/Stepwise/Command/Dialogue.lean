import Stepwise.Command.Basic
import Stepwise.Session.Request
import Stepwise.Text.Blank
import Stepwise.Value.Export

/-!
# The dialogue of a debugger

Whenever the session pauses, the dialogue shows where, with the variables of
the innermost call, and asks what to do: step, go on or quit. It goes from
question to question as answers come in, and is over when the session has
ended, when it was told to quit, or when there are no more answers, in which
case the program is let go on.
-/

namespace Stepwise

/-- A debugging session with somebody who answers. -/
structure Dialogue where
  /-- The session. -/
  session : Session
  /-- Fuel for settling the session. -/
  fuel : Nat
  /-- What has been written. -/
  transcript : Transcript := {}
  /-- Number of events that have been looked at. -/
  seen : Nat := 0
  /-- Whether a question is open. -/
  isAsking : Bool := false

namespace Dialogue

/-- The question. -/
def question : String := "(s)tep, (c)ontinue, (q)uit> "

/-- Ask. -/
def ask (d : Dialogue) : Dialogue :=
  { d with transcript := d.transcript.note question, isAsking := true }

/-- Show where the session has paused. -/
def showPlace (d : Dialogue) (s : Snapshot) : Dialogue :=
  match s.frames with
  | [] => d
  | frame :: _ =>
    let t := d.transcript.warn ("paused in " ++ frame.method ++ " at " ++ frame.span.place)
    let heap := d.session.world.heap
    let t := frame.locals.foldl
      (fun t v => t.warn ("  " ++ v.name ++ " = " ++ heap.text v.value)) t
    { d with transcript := t }

/-- Look at events until one of them calls for a question or is the last one. -/
def lookAt (d : Dialogue) : List Event → Dialogue
  | [] => d
  | e :: rest =>
    let d := { d with seen := d.seen + 1 }
    if e.phase == .paused then
      (match e.snapshot with
      | some s => d.showPlace s
      | none => d).ask
    else d.lookAt rest

/-- Let the session settle, and look at what has happened. -/
def proceed (d : Dialogue) (session : Session) : Dialogue :=
  let session := Session.settle d.fuel session
  let d := { d with session, isAsking := false }
  d.lookAt (session.world.controls.life.published.toList.drop d.seen)

/-- Let the session settle, and ask no more. -/
def dismiss (d : Dialogue) (session : Session) : Dialogue :=
  { d with session := Session.settle d.fuel session, isAsking := false }

/-- Do what was asked for, or say why it cannot be done and ask again. -/
def attempt (d : Dialogue) (r : Except SessionError Session) : Dialogue :=
  match r with
  | .ok session => d.proceed session
  | .error e => { d with transcript := d.transcript.warn e.message }.ask

/-- Take an answer; nothing means that there are no more. -/
def answer (d : Dialogue) (line : Option String) : Dialogue :=
  match line with
  | none => d.dismiss (d.session.resume.toOption.getD d.session)
  | some line =>
    match Text.trim line with
    | "s" | "step" => d.attempt d.session.step
    | "c" | "continue" => d.attempt d.session.resume
    | "q" | "quit" => d.dismiss (d.session.stop 1)
    | _ => d.ask

/-- Start a session and the dialogue about it. The entry point is task 0. -/
def start (session : Session) (fuel : Nat) (debugging : Bool) (args : List String) : Dialogue :=
  let d : Dialogue := { session, fuel }
  if debugging then d.proceed (session.start 0 true args)
  else d.dismiss (session.start 0 false args)

/-- How the entry point ended, if it has. -/
def outcome? (d : Dialogue) : Option (Except SessionError Val) :=
  (d.session.endings.find? (·.ticket == 0)).map (·.result)

/-- Report how the session went: the console, the result or the error, and the phase. -/
def conclude (d : Dialogue) (outcome : Except SessionError Val) : Conclusion :=
  let t := d.session.world.host.console.foldl (·.say ·) d.transcript
  let phase := d.session.phase
  let state := "State: " ++ phase.word
  match outcome with
  | .ok v =>
    let t := (t.say ("Result: " ++ (d.session.world.heap.toJson v).compact)).say state
    if phase == .failed then t.fail "program failed" else t.succeed
  | .error e =>
    let t := t.say state
    let t :=
      match e with
      | .failed { site := some (span, node), .. } =>
        (t.warn ("  in " ++ node)).warn ("  at " ++ span.place)
      | _ => t
    t.fail e.message

end Dialogue

end Stepwise
