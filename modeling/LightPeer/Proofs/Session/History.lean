import LightPeer.Proofs.Session.Lasting

/-! # What the deeds so far say about a session

A statement about the deeds so far and the session as they left it, if every deed keeps
it and so do the log, the ticks and the link, holds throughout a run: at every moment in
its course, and in the end. -/

namespace LightPeer

open Session

namespace Session

/-- A statement about the deeds so far and the session that nothing breaks. -/
structure Historical (R : List Moment → Session → Prop) : Prop where
  deed {history : List Moment} (moment : Moment) :
    R history moment.session → R (history ++ [moment]) moment.next
  emit {history : List Moment} {session : Session} (effect : Effect) :
    R history session → R history (session.emit effect)
  tick {history : List Moment} {session : Session} (now : Nat) :
    R history session → R history (session.tick now)
  refuse {history : List Moment} {session : Session} (error : Option Error) :
    R history session → R history { session with link := { session.link with refusal := error } }

/-- After some deeds, the statement holds at every moment of a course. -/
def Throughout (R : List Moment → Session → Prop) (history : List Moment) : List Moment → Prop
  | [] => True
  | moment :: course => R history moment.session ∧ Throughout R (history ++ [moment]) course

variable {R : List Moment → Session → Prop} {history : List Moment}

theorem throughout_append {first last : List Moment} :
    Throughout R history (first ++ last) ↔
      Throughout R history first ∧ Throughout R (history ++ first) last := by
  induction first generalizing history with
  | nil => simp [Throughout]
  | cons moment first ih =>
      rw [List.cons_append, Throughout, Throughout, ih, and_assoc, List.append_assoc]
      rfl

namespace Historical

variable (h : Historical R)
include h

/-! ## Scripts -/

theorem script {α : Type} (script : Script α) {session : Session} (hstart : R history session) :
    Throughout R history (script.moments session) ∧
      R (history ++ script.moments session) (script.run session).1 := by
  induction script generalizing session history with
  | done value => exact ⟨trivial, (List.append_nil history).symm ▸ hstart⟩
  | call c next ih =>
      have hcall : R (history ++ [⟨session, .called c⟩]) (session.perform c).1 :=
        h.deed ⟨session, .called c⟩ hstart
      obtain ⟨hthroughout, hend⟩ := ih (session.perform c).2 hcall
      rw [List.append_assoc] at hend
      exact ⟨⟨hstart, hthroughout⟩, hend⟩

/-! ## Messages that come -/

variable {σ : Type} (client : Client σ) (running : Running σ)

theorem dispatch (message : Message) (hstart : R history running.session) :
    Throughout R history (Running.answering client running message) ∧
      R (history ++ Running.answering client running message)
        (Running.dispatch client running message).1.session := by
  unfold Running.answering Running.dispatch
  cases Callback.ofMessage? message with
  | none => exact ⟨trivial, (List.append_nil history).symm ▸ h.emit _ hstart⟩
  | some callback => exact h.script _ (h.emit _ hstart)

theorem report (message : Message) (result : Except Error Unit)
    (hstart : R history running.session) :
    R history (Running.report running message result).session := by
  cases result with
  | ok _ => exact hstart
  | error error => exact h.emit _ hstart

theorem handle (message : Message) (hstart : R history running.session) :
    Throughout R history (Running.moments client running (.handle message)) ∧
      R (history ++ Running.moments client running (.handle message))
        (Running.handle client running message).1.session := by
  let moment : Moment := ⟨running.session, .came message⟩
  have hcame := h.deed moment hstart
  cases message with
  | ping nonce => exact ⟨⟨hstart, trivial⟩, hcame⟩
  | pong nonce => exact ⟨⟨hstart, trivial⟩, hcame⟩
  | _ =>
      obtain ⟨hthroughout, hend⟩ := h.dispatch client ⟨moment.next, running.memory⟩ _ hcame
      rw [List.append_assoc] at hend
      exact ⟨⟨hstart, hthroughout⟩, h.report _ _ _ hend⟩

/-! ## Steps and runs -/

theorem step (step : Running.Step) (hstart : R history running.session) :
    Throughout R history (Running.moments client running step) ∧
      R (history ++ Running.moments client running step)
        (Running.step client running step).1.session := by
  cases step with
  | handle message => exact h.handle client running message hstart
  | call c => exact ⟨⟨hstart, trivial⟩, h.deed ⟨running.session, .called c⟩ hstart⟩
  | refuse error => exact ⟨trivial, (List.append_nil history).symm ▸ h.refuse error hstart⟩
  | tick now => exact ⟨trivial, (List.append_nil history).symm ▸ h.tick now hstart⟩

/-- From the start of a run on, the statement holds at every moment and in the end. -/
theorem steps (todo : List Running.Step) (hstart : R history running.session) :
    Throughout R history (Running.course client running todo) ∧
      R (history ++ Running.course client running todo)
        (Running.steps client running todo).session := by
  unfold Running.steps
  induction todo generalizing running history with
  | nil => exact ⟨trivial, (List.append_nil history).symm ▸ hstart⟩
  | cons step todo ih =>
      obtain ⟨hstep, hnext⟩ := h.step client running step hstart
      obtain ⟨hthroughout, hend⟩ := ih _ hnext
      rw [List.append_assoc] at hend
      exact ⟨throughout_append.mpr ⟨hstep, hthroughout⟩, hend⟩

variable (hstart : R [] running.session)
include hstart

theorem in_the_end (todo : List Running.Step) :
    R (Running.course client running todo) (Running.steps client running todo).session :=
  (h.steps client running todo hstart).2

theorem at_moment {todo : List Running.Step} {earlier later : List Moment} {moment : Moment}
    (hcourse : Running.course client running todo = earlier ++ moment :: later) :
    R earlier moment.session := by
  obtain ⟨hthroughout, -⟩ := h.steps client running todo hstart
  rw [hcourse, throughout_append] at hthroughout
  exact hthroughout.2.1

end Historical

/-- A message that comes changes nothing in the books but the height. -/
theorem books_came (session : Session) (message : Message) :
    let moment : Moment := ⟨session, .came message⟩
    moment.next.books = { session.books with height := moment.next.height } := by
  intro moment
  have hsame {next : Session} (hnext : next.books = session.books) :
      next.books = { session.books with height := next.height } := by
    rw [← hnext]
    rfl
  cases message with
  | ping nonce =>
      let learned := session.learnHeight nonce
      have hsend := books_send learned (.pong learned.localHeight.toUInt64)
      have hheight : moment.next.height = learned.height := congrArg Books.height hsend
      rw [hheight]
      exact hsend.trans (books_learnHeight session nonce)
  | pong nonce => exact books_learnHeight session nonce
  | _ => exact hsame (books_alert session _)

end Session

end LightPeer
