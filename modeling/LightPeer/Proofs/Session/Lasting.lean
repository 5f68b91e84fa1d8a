import LightPeer.Proofs.Session.Course

/-! # What lasts through a run

A relation from a session to what becomes of it, if every call keeps it, is kept by
scripts, by messages that come and by whole runs: from the start of a run to every
moment in its course, and from there to the end. -/

namespace LightPeer

open Session

namespace Session

/-- A relation from a session to later ones that nothing breaks. -/
structure Lasting (R : Session → Session → Prop) : Prop where
  refl (session : Session) : R session session
  trans {first second third : Session} : R first second → R second third → R first third
  emit (session : Session) (effect : Effect) : R session (session.emit effect)
  perform (session : Session) (call : Call) : R session (session.perform call).1
  tick (session : Session) (now : Nat) : R session (session.tick now)
  refuse (session : Session) (error : Option Error) :
    R session { session with link := { session.link with refusal := error } }

/-- The session right after a deed: what a callback does about a message comes later. -/
def Moment.next (moment : Moment) : Session :=
  match moment.deed with
  | .came (.ping nonce) =>
    let learned := moment.session.learnHeight nonce
    (learned.send (.pong learned.localHeight.toUInt64)).1
  | .came (.pong nonce) => moment.session.learnHeight nonce
  | .came message => Running.alert moment.session message
  | .called call => (moment.session.perform call).1

end Session

namespace Session.Lasting

variable {R : Session → Session → Prop} (h : Lasting R) (session : Session)
include h

theorem learnHeight (nonce : UInt64) : R session (session.learnHeight nonce) := by
  unfold Session.learnHeight
  split
  · exact h.perform session (.setHeight nonce.toUInt32)
  · exact h.emit session _

theorem alert (message : Message) : R session (Running.alert session message) := by
  have hnotify : R session (session.notify message).1 := h.perform session (.notify message)
  rcases alert_cases session message with halert | ⟨text, halert⟩
  · rwa [halert]
  · rw [halert]
    exact h.trans hnotify (h.emit _ _)

theorem next (moment : Moment) : R moment.session moment.next := by
  obtain ⟨session, deed⟩ := moment
  cases deed with
  | came message =>
      cases message with
      | ping nonce => exact h.trans (h.learnHeight session nonce) (h.perform _ (.send _))
      | pong nonce => exact h.learnHeight session nonce
      | _ => exact h.alert session _
  | called call => exact h.perform session call

/-! ## Scripts -/

theorem script {α : Type} (script : Script α) : R session (script.run session).1 := by
  induction script generalizing session with
  | done value => exact h.refl session
  | call c next ih => exact h.trans (h.perform session c) (ih _ _)

theorem mem_script {α : Type} (script : Script α) :
    ∀ moment ∈ script.moments session,
      R session moment.session ∧ R moment.next (script.run session).1 := by
  induction script generalizing session with
  | done value => exact List.forall_mem_nil _
  | call c next ih =>
      refine List.forall_mem_cons.mpr ⟨⟨h.refl session, h.script _ _⟩, ?_⟩
      intro moment hmem
      obtain ⟨hbefore, hafter⟩ := ih _ _ moment hmem
      exact ⟨h.trans (h.perform session c) hbefore, hafter⟩

/-! ## Messages that come -/

variable {σ : Type} (client : Client σ) (running : Running σ)

theorem dispatch (message : Message) :
    R running.session (Running.dispatch client running message).1.session := by
  unfold Running.dispatch
  split
  · exact h.trans (h.emit _ _) (h.script _ _)
  · exact h.emit _ _

theorem report (message : Message) (result : Except Error Unit) :
    R running.session (Running.report running message result).session := by
  cases result with
  | ok _ => exact h.refl _
  | error error => exact h.emit _ _

theorem mem_answering (message : Message) :
    ∀ moment ∈ Running.answering client running message, R running.session moment.session ∧
      R moment.next (Running.dispatch client running message).1.session := by
  unfold Running.answering Running.dispatch
  cases Callback.ofMessage? message with
  | none => exact List.forall_mem_nil _
  | some callback =>
      intro moment hmem
      obtain ⟨hbefore, hafter⟩ := h.mem_script _ _ moment hmem
      exact ⟨h.trans (h.emit _ _) hbefore, hafter⟩

theorem mem_handle (message : Message) :
    ∀ moment ∈ Running.moments client running (.handle message), R running.session moment.session ∧
      R moment.next (Running.handle client running message).1.session := by
  let alerted : Running σ := { running with session := Running.alert running.session message }
  let dispatched := Running.dispatch client alerted message
  let reported := Running.report dispatched.1 message dispatched.2
  have hreport : R dispatched.1.session reported.session := h.report _ message _
  have hcame : R alerted.session reported.session := h.trans (h.dispatch client _ message) hreport
  have hanswering : ∀ moment ∈ Running.answering client alerted message,
      R running.session moment.session ∧ R moment.next reported.session := by
    intro moment hmem
    obtain ⟨hbefore, hafter⟩ := h.mem_answering client alerted message moment hmem
    exact ⟨h.trans (h.alert running.session message) hbefore, h.trans hafter hreport⟩
  cases message with
  | ping nonce => exact List.forall_mem_singleton.mpr ⟨h.refl _, h.refl _⟩
  | pong nonce => exact List.forall_mem_singleton.mpr ⟨h.refl _, h.refl _⟩
  | _ => exact List.forall_mem_cons.mpr ⟨⟨h.refl _, hcame⟩, hanswering⟩

/-! ## Steps and runs -/

theorem mem_moments (step : Running.Step) :
    ∀ moment ∈ Running.moments client running step, R running.session moment.session ∧
      R moment.next (Running.step client running step).1.session := by
  cases step with
  | handle message => exact h.mem_handle client running message
  | call c => exact List.forall_mem_singleton.mpr ⟨h.refl _, h.refl _⟩
  | refuse error => exact List.forall_mem_nil _
  | tick now => exact List.forall_mem_nil _

theorem step (step : Running.Step) :
    R running.session (Running.step client running step).1.session := by
  cases step with
  | handle message =>
      obtain ⟨-, hafter⟩ := h.mem_handle client running message _ List.mem_cons_self
      exact h.trans (h.next ⟨running.session, .came message⟩) hafter
  | call c => exact h.perform _ c
  | refuse error => exact h.refuse _ error
  | tick now => exact h.tick _ now

theorem steps (todo : List Running.Step) :
    R running.session (Running.steps client running todo).session := by
  unfold Running.steps
  induction todo generalizing running with
  | nil => exact h.refl _
  | cons step todo ih => exact h.trans (h.step client running step) (ih _)

/-- Every moment in the course of a run comes after the start and before the end. -/
theorem mem_course (todo : List Running.Step) :
    ∀ moment ∈ Running.course client running todo, R running.session moment.session ∧
      R moment.next (Running.steps client running todo).session := by
  induction todo generalizing running with
  | nil => exact List.forall_mem_nil _
  | cons step todo ih =>
      refine List.forall_mem_append.mpr ⟨?_, ?_⟩
      · intro moment hmem
        obtain ⟨hbefore, hafter⟩ := h.mem_moments client running step moment hmem
        exact ⟨hbefore, h.trans hafter (h.steps client _ todo)⟩
      · intro moment hmem
        obtain ⟨hbefore, hafter⟩ := ih _ moment hmem
        exact ⟨h.trans (h.step client running step) hbefore, hafter⟩

end Session.Lasting

end LightPeer
