import LightPeer.Session.Run
import Mathlib.Data.List.Basic

/-! # What a session does not look at

No call looks at the journal, to which it may add, and the threshold decides what is
added and nothing else. So a session with another past or a higher threshold does the
same and answers the same. Of the height, a call may set it, and one call asks for it.
A session with another height differs only for those who ask, so it still does the same
if its client does not heed the answer. -/

namespace LightPeer

namespace Log.Level

/-- The higher one of two levels. -/
def higher (level other : Level) : Level := if level.rank ≤ other.rank then other else level

theorem rank_higher_le_iff {level other : Level} {rank : Nat} :
    (level.higher other).rank ≤ rank ↔ level.rank ≤ rank ∧ other.rank ≤ rank := by
  unfold higher
  split <;> omega

@[simp] theorem higher_trace (level : Level) : level.higher .trace = level := by
  cases level <;> rfl

@[simp] theorem trace_higher (level : Level) : Level.trace.higher level = level := by
  cases level <;> rfl

end Log.Level

namespace Session

/-- The effects that remain when only records from a level on are written down. -/
def Effect.passes (level : Log.Level) : Effect → Bool
  | .logged record => level.rank ≤ record.level.rank
  | _ => true

/-- What may be left of another height: all of it, or nothing once a height was set. -/
inductive LeftOf (height? : Option UInt32) : Option UInt32 → Prop where
  | whole : LeftOf height? height?
  | nothing : LeftOf height? none

theorem LeftOf.trans {height? known later : Option UInt32} (h : LeftOf height? known)
    (hlater : LeftOf known later) : LeftOf height? later := by
  cases hlater with
  | whole => exact h
  | nothing => exact .nothing

theorem LeftOf.eq_none {known : Option UInt32} (h : LeftOf none known) : known = none := by
  cases h <;> rfl

variable (session : Session) (level : Log.Level) (height? : Option UInt32) (past : List Effect)
  (message : Message)

/-- The session if it wrote down only records from a level on, had another height,
if one is given, and more of a journal before its own. -/
def recast : Session :=
  { session with
    threshold := session.threshold.higher level
    height := height?.getD session.height
    journal := past ++ session.journal.filter (Effect.passes level) }

@[simp] theorem recast_addr : (session.recast level height? past).addr = session.addr := rfl

@[simp] theorem recast_watchdog :
    (session.recast level height? past).watchdog = session.watchdog := rfl

@[simp] theorem recast_blockQueue :
    (session.recast level height? past).blockQueue = session.blockQueue := rfl

theorem kept_recast (effect : Effect) : (session.recast level height? past).kept effect =
    (session.kept effect).filter (Effect.passes level) := by
  cases effect with
  | logged record =>
      have hrank : (session.recast level height? past).threshold.rank ≤ record.level.rank ↔
          session.threshold.rank ≤ record.level.rank ∧ level.rank ≤ record.level.rank :=
        Log.Level.rank_higher_le_iff
      simp only [kept, hrank]
      by_cases hlow : session.threshold.rank ≤ record.level.rank
      · by_cases hpasses : level.rank ≤ record.level.rank
        · simp [Effect.passes, hlow, hpasses]
        · simp [Effect.passes, hlow, hpasses]
      · simp [hlow]
  | _ => rfl

@[simp] theorem emit_recast (effect : Effect) :
    (session.recast level height? past).emit effect =
      (session.emit effect).recast level height? past := by
  unfold emit
  rw [kept_recast]
  simp only [recast, List.append_assoc, List.filter_append]

@[simp] theorem log_recast (logLevel : Log.Level) (text : String) :
    (session.recast level height? past).log logLevel text =
      (session.log logLevel text).recast level height? past :=
  emit_recast session level height? past _

@[simp] theorem notify_recast : (session.recast level height? past).notify message =
    ((session.notify message).1.recast level height? past, (session.notify message).2) := by
  cases hopen : session.watchdog with
  | none => simp [notify, hopen]
  | some state =>
      let told : Session := { session with watchdog := some (state.observe message session.clock).1 }
      have hemit := emit_recast told level height? past (.watched message)
      unfold notify
      rw [recast_watchdog, hopen]
      by_cases hbad : StallState.judge message = .disconnect
      · simp only [StallState.observe, hbad, reduceIte]
        exact Prod.ext (congrArg disconnect hemit) rfl
      · simp only [StallState.observe, hbad, reduceIte]
        exact Prod.ext hemit rfl

@[simp] theorem offer_recast : (session.recast level height? past).offer message =
    ((session.offer message).1.recast level height? past, (session.offer message).2) :=
  Prod.ext (emit_recast session level height? past _) rfl

@[simp] theorem send_recast : (session.recast level height? past).send message =
    ((session.send message).1.recast level height? past, (session.send message).2) := by
  unfold send
  by_cases hrequest : message.isRequest
  · cases hheard : (session.notify message).2 <;> simp [hrequest, hheard]
  · simp [hrequest]

@[simp] theorem tick_recast (now : Nat) :
    (session.recast level height? past).tick now =
      (session.tick now).recast level height? past := by
  unfold tick
  dsimp only
  rw [recast_watchdog]
  cases session.watchdog with
  | none => rfl
  | some state =>
      dsimp only
      split <;> rfl

@[simp] theorem requestHashes_recast (locators : List Hash) (stop : Hash) :
    (session.recast level height? past).requestHashes locators stop =
      ((session.requestHashes locators stop).1.recast level height? past,
        (session.requestHashes locators stop).2) := by
  simp [requestHashes]

@[simp] theorem requestBlocks_recast (hashes : List Hash) :
    (session.recast level height? past).requestBlocks hashes =
      ((session.requestBlocks hashes).1.recast level height? past,
        (session.requestBlocks hashes).2) := by
  cases hashes with
  | nil => rfl
  | cons first rest => simp [requestBlocks]

@[simp] theorem requestTxs_recast (txids : List Hash) :
    (session.recast level height? past).requestTxs txids =
      ((session.requestTxs txids).1.recast level height? past, (session.requestTxs txids).2) := by
  cases txids with
  | nil => rfl
  | cons first rest =>
      let requests := session.requests.insertAll (first :: rest)
      exact send_recast { session with requests } level height? past (.getData _)

theorem queueBlock_recast (hash : Hash) :
    (session.recast level height? past).queueBlock hash =
      ((session.queueBlock hash).1.recast level height? past, (session.queueBlock hash).2) := by
  by_cases hfull : session.blockQueueSize ≤ session.blockQueue.length
  · simp [queueBlock, recast, hfull]
  · simp [queueBlock, recast, hfull]

variable {height?} in
/-- What a call does and answers does not depend on the height, unless it asks for it,
and only setting the height changes it. -/
theorem perform_recast {call : Call} (hcall : height? = none ∨ call ≠ .height) :
    ∃ known, LeftOf height? known ∧ (session.recast level height? past).perform call =
      ((session.perform call).1.recast level known past, (session.perform call).2) := by
  cases call with
  | setHeight height => exact ⟨none, .nothing, rfl⟩
  | height =>
      obtain rfl := hcall.resolve_right (fun hasks => hasks rfl)
      exact ⟨none, .whole, rfl⟩
  | notify message => exact ⟨_, .whole, notify_recast session level height? past message⟩
  | send message => exact ⟨_, .whole, send_recast session level height? past message⟩
  | requestHashes locators stop =>
      exact ⟨_, .whole, requestHashes_recast session level height? past locators stop⟩
  | requestBlocks hashes =>
      exact ⟨_, .whole, requestBlocks_recast session level height? past hashes⟩
  | requestTxs txids => exact ⟨_, .whole, requestTxs_recast session level height? past txids⟩
  | loadFilter filter =>
      exact ⟨_, .whole, send_recast session.resetTracker level height? past (.filterLoad filter)⟩
  | ping =>
      exact ⟨_, .whole, send_recast session level height? past (.ping session.localHeight.toUInt64)⟩
  | track block =>
      refine ⟨_, .whole, ?_⟩
      simp only [perform, track]
      cases BlockTracker.ofMerkleBlock block <;> rfl
  | queueBlock hash => exact ⟨_, .whole, queueBlock_recast session level height? past hash⟩
  | nextBlock =>
      refine ⟨_, .whole, ?_⟩
      simp only [perform, nextBlock, recast_blockQueue]
      cases session.blockQueue <;> rfl
  | _ => exact ⟨_, .whole, rfl⟩

theorem learnHeight_recast (nonce : UInt64) : ∃ known, LeftOf height? known ∧
    (session.recast level height? past).learnHeight nonce =
      (session.learnHeight nonce).recast level known past := by
  unfold learnHeight
  split
  · exact ⟨none, .nothing, rfl⟩
  · exact ⟨height?, .whole, log_recast session level height? past _ _⟩

end Session

open Session

/-! ## Clients that do not heed the height -/

/-- A script that goes on in the same way whatever height it is told. -/
def Script.Heedless {α : Type} : Script α → Prop
  | .done _ => True
  | .call c next =>
    (c = .height → ∀ result other, next result = next other) ∧ ∀ result, (next result).Heedless

/-- A client that does the same about every callback whatever height it is told. -/
def Client.Heedless {σ : Type} (client : Client σ) : Prop :=
  ∀ callback memory, (client.react callback memory).Heedless

theorem Script.Heedless.bind {α β : Type} {script : Script α} {next : α → Script β}
    (h : script.Heedless) (hnext : ∀ value, (next value).Heedless) :
    (script >>= next).Heedless := by
  change (script.bind next).Heedless
  induction script with
  | done value => exact hnext value
  | call c more ih =>
      obtain ⟨hsame, hmore⟩ := h
      refine ⟨?_, fun result => ih result (hmore result)⟩
      intro hasks result other
      exact congrArg (Script.bind · next) (hsame hasks result other)

/-- A call that does not ask for the height. -/
theorem Script.Heedless.call {α : Type} {c : Session.Call} {next : c.Result → Script α}
    (hcall : c ≠ .height) (hnext : ∀ result, (next result).Heedless) :
    (Script.call c next).Heedless :=
  ⟨fun hasks => absurd hasks hcall, hnext⟩

/-- What a script does and comes to does not depend on the threshold, nor on a height that
it does not heed. -/
theorem Script.run_recast {α : Type} {script : Script α} {height? : Option UInt32}
    (hscript : height? = none ∨ script.Heedless) (session : Session) (level : Log.Level)
    (past : List Effect) : ∃ known, LeftOf height? known ∧
      script.run (session.recast level height? past) =
        ((script.run session).1.recast level known past, (script.run session).2) := by
  induction script generalizing session height? with
  | done value => exact ⟨height?, .whole, rfl⟩
  | call c next ih =>
      -- what is left of the height is not heeded by the rest of the script either
      have hrest {known : Option UInt32} (hleft : LeftOf height? known) (result : c.Result) :
          known = none ∨ (next result).Heedless := by
        rcases hscript with rfl | hheedless
        · exact .inl hleft.eq_none
        · exact .inr (hheedless.2 result)
      by_cases hcall : height? = none ∨ c ≠ .height
      · obtain ⟨known, hleft, hperform⟩ := perform_recast session level past hcall
        obtain ⟨later, hlater, hrun⟩ :=
          ih (session.perform c).2 (hrest hleft _) (session.perform c).1
        refine ⟨later, hleft.trans hlater, ?_⟩
        rw [Script.run_call, hperform]
        exact hrun
      · obtain ⟨hsome, hasks⟩ := not_or.mp hcall
        obtain rfl := not_not.mp hasks
        have hsame := (hscript.resolve_left hsome).1 rfl
        obtain ⟨later, hlater, hrun⟩ := ih session.height (hrest .whole _) session
        refine ⟨later, hlater, ?_⟩
        rw [Script.run_call, hsame _ session.height]
        exact hrun

namespace Running

variable {σ : Type} (running : Running σ) (level : Log.Level) (height? : Option UInt32)
  (past : List Effect) (message : Message)

def recast : Running σ := { running with session := running.session.recast level height? past }

/-! ## Messages and steps -/

theorem alert_recast (session : Session) :
    alert (session.recast level height? past) message =
      (alert session message).recast level height? past := by
  unfold alert
  rw [notify_recast]
  obtain ⟨notified, answer⟩ := session.notify message
  cases answer with
  | ok => rfl
  | error error => exact log_recast notified level height? past _ _

theorem report_recast (result : Except Error Unit) :
    report (running.recast level height? past) message result =
      (report running message result).recast level height? past := by
  cases result with
  | ok => rfl
  | error error => simp [report, recast]

variable {client : Client σ} {height?} (hclient : height? = none ∨ client.Heedless)

include hclient

theorem dispatch_recast : ∃ known, LeftOf height? known ∧
    dispatch client (running.recast level height? past) message =
      ((dispatch client running message).1.recast level known past,
        (dispatch client running message).2) := by
  unfold dispatch
  cases Callback.ofMessage? message with
  | none =>
      refine ⟨height?, .whole, ?_⟩
      simp [recast]
  | some callback =>
      have hreact : height? = none ∨ (client.react callback running.memory).Heedless :=
        hclient.imp_right fun hheedless => hheedless callback running.memory
      obtain ⟨known, hleft, hrun⟩ := Script.run_recast hreact
        (running.session.emit (.dispatched callback)) level past
      refine ⟨known, hleft, ?_⟩
      simp [recast, hrun]

theorem handle_recast : ∃ known, LeftOf height? known ∧
    handle client (running.recast level height? past) message =
      ((handle client running message).1.recast level known past,
        (handle client running message).2) := by
  let alerted : Running σ := { running with session := alert running.session message }
  obtain ⟨known, hleft, hdispatch⟩ := dispatch_recast alerted level past message hclient
  have halerted : { running.recast level height? past with
      session := alert (running.recast level height? past).session message } =
        alerted.recast level height? past := by
    simp only [recast, alert_recast, alerted]
  cases message with
  | ping nonce =>
      obtain ⟨known, hleft, hlearned⟩ :=
        learnHeight_recast running.session level height? past nonce
      refine ⟨known, hleft, ?_⟩
      simp only [handle, recast, hlearned, send_recast]
      rfl
  | pong nonce =>
      obtain ⟨known, hleft, hlearned⟩ :=
        learnHeight_recast running.session level height? past nonce
      refine ⟨known, hleft, ?_⟩
      simp only [handle, recast, hlearned]
  | _ =>
      refine ⟨known, hleft, ?_⟩
      simp only [handle]
      rw [halerted, hdispatch, report_recast]

/-- What a step does and comes to does not depend on the threshold, nor on the height if it
does not ask for it and the client does not heed it. -/
theorem step_recast {step : Step} (hstep : height? = none ∨ step ≠ .call .height) :
    ∃ known, LeftOf height? known ∧
    Running.step client (running.recast level height? past) step =
      ((Running.step client running step).1.recast level known past,
        (Running.step client running step).2) := by
  cases step with
  | handle message => exact handle_recast running level past message hclient
  | call c =>
      have hcall : height? = none ∨ c ≠ .height :=
        hstep.imp_right fun hother hasks => hother (congrArg Step.call hasks)
      obtain ⟨known, hleft, hperform⟩ := perform_recast running.session level past hcall
      refine ⟨known, hleft, ?_⟩
      simp only [Running.step, recast, hperform]
  | refuse error => exact ⟨height?, .whole, rfl⟩
  | tick now =>
      refine ⟨height?, .whole, ?_⟩
      simp only [Running.step, recast, tick_recast]

end Running

end LightPeer
