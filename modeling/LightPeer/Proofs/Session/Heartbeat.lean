import LightPeer.Proofs.Session.Height
import LightPeer.Proofs.Session.Recast
import LightPeer.Proofs.Session.Simulation

/-! # Pings and pongs tell the height and nothing else

Pings and pongs set the height, and no call looks at the height but the one that asks
for it. So with a client that does not heed the height, a run in which they come gets as
far, with the same results, as the run without them, and only the height tells that they
came. -/

namespace LightPeer

open Session

/-- Where all records are written down, only the height and the past are others. -/
theorem Session.recast_trace (session : Session) (height? : Option UInt32) (past : List Effect) :
    session.recast .trace height? past =
      { session with height := height?.getD session.height, journal := past ++ session.journal } := by
  have hpasses : ∀ effect ∈ session.journal, effect.passes .trace = true := by
    intro effect _
    cases effect with
    | logged record => simp [Effect.passes, Log.Level.rank]
    | _ => rfl
  unfold recast
  rw [List.filter_eq_self.mpr hpasses, Log.Level.higher_trace]

/-! ## Clients -/

namespace Client

variable (notes : List Note)

theorem heedless_collect (id : TrackerId) : (collect id notes).Heedless := by
  refine .call nofun ?_
  intro taken
  cases taken <;> trivial

theorem heedless_follow (block : MerkleBlock) : (follow block notes).Heedless := by
  rw [Syncing.follow_eq]
  refine .call nofun ?_
  intro tracked
  cases tracked with
  | error error => trivial
  | ok id =>
      cases block.matched with
      | error fault => trivial
      | ok txids =>
          refine .call nofun ?_
          intro answer
          cases answer with
          | error error => trivial
          | ok => exact (heedless_collect notes id).bind fun _ => trivial

theorem heedless_receive (tx : Tx) : (receive tx notes).Heedless := by
  rw [Syncing.receive_eq]
  refine .call nofun ?_
  intro asked
  cases asked with
  | false => exact .call nofun fun _ => trivial
  | true =>
      refine .call nofun fun _ => .call nofun fun id => .call nofun ?_
      intro expected
      have hcollect : (do return (← collect id notes, .ok ()) :
          Script (List Note × Except Error Unit)).Heedless :=
        (heedless_collect notes id).bind fun _ => trivial
      cases expected with
      | false => exact hcollect
      | true => exact .call nofun fun _ => hcollect

theorem heedless_syncing (failure : Callback → Option Error) : (syncing failure).Heedless := by
  intro callback notes
  unfold syncing
  dsimp only
  cases failure callback with
  | some error => trivial
  | none =>
      cases callback with
      | merkleBlock block => exact heedless_follow _ block
      | tx tx => exact heedless_receive _ tx
      | _ => trivial

/-- Asks for block hashes over every announcement, once it was told a height. -/
def eager : Client Unit where
  react callback memory := do
    match callback with
    | .inventory _ =>
      let height ← Script.perform .height
      if 0 < height then
        return (memory, ← Script.perform (.requestHashes [] .zero))
      else return (memory, .ok ())
    | _ => return (memory, .ok ())

end Client

namespace Running

variable {σ : Type} (client : Client σ) (running : Running σ)

/-! ## Turns -/

/-- A step of a session, and our own height at it. -/
structure Turn where
  step : Step
  localHeight : UInt32

/-- Whether a ping or a pong comes at a turn. -/
def Turn.isHeartbeat (turn : Turn) : Bool :=
  match turn.step with
  | .handle (.ping _) | .handle (.pong _) => true
  | _ => false

def withoutHeartbeats (turns : List Turn) : List Turn := turns.filter (!·.isHeartbeat)

/-- A session at a turn, which begins with what our own height is by now. -/
def atTurn (turn : Turn) : Running σ :=
  { running with session := { running.session with localHeight := turn.localHeight } }

@[simp] theorem journal_atTurn (turn : Turn) :
    (running.atTurn turn).session.journal = running.session.journal := rfl

def proceed (turn : Turn) : Running σ × turn.step.Result :=
  Running.step client (running.atTurn turn) turn.step

def play (turns : List Turn) : Running σ :=
  turns.foldl (fun running turn => (proceed client running turn).1) running

/-- The deeds in a run, in their order. -/
def chronicle (running : Running σ) : List Turn → List Moment
  | [] => []
  | turn :: turns =>
    moments client (running.atTurn turn) turn.step ++
      chronicle (proceed client running turn).1 turns

/-- Throughout a run and after it, the height is the one told last. -/
theorem informed_chronicle (turns : List Turn) :
    Informed running.session.height (chronicle client running turns) ∧
      (play client running turns).session.height =
        told running.session.height (chronicle client running turns) := by
  unfold play
  induction turns generalizing running with
  | nil => exact ⟨trivial, rfl⟩
  | cons turn turns ih =>
      obtain ⟨hinformed, htold⟩ := informed_step client (running.atTurn turn) turn.step
      obtain ⟨hrest, hlast⟩ := ih (proceed client running turn).1
      have hheight : (proceed client running turn).1.session.height =
        told running.session.height (moments client (running.atTurn turn) turn.step) := htold
      rw [hheight] at hrest hlast
      unfold chronicle
      rw [informed_append, told_append]
      exact ⟨⟨hinformed, hrest⟩, hlast⟩

/-! ## Runs with and without pings and pongs -/

/-- A session and its client without the journal and the heights, of which our own is
new at every turn. -/
def bare : Running σ :=
  { running with session := { running.session with localHeight := 0, height := 0, journal := [] } }

@[simp] theorem bare_atTurn (turn : Turn) : (running.atTurn turn).bare = running.bare := rfl

/-- A turn that asks for the height. -/
def Turn.AsksHeight (turn : Turn) : Prop := turn.step = .call .height

variable {client} in
theorem proceed_eq (hclient : client.Heedless) {turn : Turn} (hturn : ¬ turn.AsksHeight) :
    ∃ known, proceed client running turn =
      ((proceed client running.bare turn).1.recast .trace known running.session.journal,
        (proceed client running.bare turn).2) := by
  have hrecast : running.atTurn turn = (running.bare.atTurn turn).recast .trace
      (some running.session.height) running.session.journal := by
    simp [Running.atTurn, bare, recast, recast_trace]
  have hheedless : some running.session.height = none ∨ client.Heedless := .inr hclient
  obtain ⟨known, -, hstep⟩ := step_recast (running.bare.atTurn turn) .trace
    running.session.journal hheedless (.inr hturn)
  refine ⟨known, ?_⟩
  unfold proceed
  rw [hrecast]
  exact hstep

/-- Two sessions do and answer the same at a turn, unless it asks for the height, and
differ after it as they did before. -/
structure Concur (running other : Running σ) (turn : Turn) : Prop where
  result_eq : ¬ turn.AsksHeight →
    (proceed client other turn).2 = (proceed client running turn).2
  bare_eq : (proceed client other turn).1.bare = (proceed client running turn).1.bare
  /-- The client is turned to, the watchdog is handed and the link is offered the same. -/
  journal_eq : ∃ added,
    (proceed client running turn).1.session.journal = running.session.journal ++ added ∧
      (proceed client other turn).1.session.journal = other.session.journal ++ added

variable {client running}

/-- Asking for the height changes nothing. -/
theorem proceed_of_asksHeight {turn : Turn} (h : turn.AsksHeight) :
    (proceed client running turn).1 = running.atTurn turn := by
  unfold proceed
  rw [h]
  rfl

theorem concur_of_bare_eq (hclient : client.Heedless) {other : Running σ}
    (h : other.bare = running.bare) (turn : Turn) : Concur client running other turn := by
  by_cases hturn : turn.AsksHeight
  · refine ⟨fun hasks => absurd hturn hasks, ?_, [], ?_, ?_⟩
    · rw [proceed_of_asksHeight hturn, proceed_of_asksHeight hturn, bare_atTurn, bare_atTurn, h]
    · rw [proceed_of_asksHeight hturn, journal_atTurn, List.append_nil]
    · rw [proceed_of_asksHeight hturn, journal_atTurn, List.append_nil]
  · obtain ⟨known, hrunning⟩ := proceed_eq running hclient hturn
    obtain ⟨known', hother⟩ := proceed_eq other hclient hturn
    rw [h] at hother
    refine ⟨fun _ => ?_, ?_, (proceed client running.bare turn).1.session.journal, ?_, ?_⟩
    · rw [hrunning, hother]
    · rw [hrunning, hother]
      simp [bare, recast, recast_trace]
    · rw [hrunning]
      simp [recast, recast_trace]
    · rw [hother]
      simp [recast, recast_trace]

/-- Sessions that concur have their links take the same messages. -/
theorem Concur.exists_sent {other : Running σ} {turn : Turn}
    (h : Concur client running other turn) : ∃ messages,
      sent (proceed client running turn).1.session.journal =
          sent running.session.journal ++ messages ∧
        sent (proceed client other turn).1.session.journal =
          sent other.session.journal ++ messages := by
  obtain ⟨added, hrunning, hother⟩ := h.journal_eq
  refine ⟨sent added, ?_, ?_⟩
  · rw [hrunning]
    exact List.filterMap_append
  · rw [hother]
    exact List.filterMap_append

/-- A ping or a pong leaves a session as it was, but for the height. -/
theorem bare_proceed_of_isHeartbeat {turn : Turn} (h : turn.isHeartbeat) :
    (proceed client running turn).1.bare = running.bare := by
  obtain ⟨step, localHeight⟩ := turn
  have hlearned (session : Session) (nonce : UInt64) :
      (⟨session.learnHeight nonce, running.memory⟩ : Running σ).bare =
        (⟨session, running.memory⟩ : Running σ).bare := by
    unfold Session.learnHeight
    split <;> rfl
  have hanswered (session : Session) (height : UInt64) :
      (⟨(session.send (.pong height)).1, running.memory⟩ : Running σ).bare =
        (⟨session, running.memory⟩ : Running σ).bare := by
    have hrequest : ¬ (Message.pong height).isRequest := Bool.false_ne_true
    rw [send_of_not_isRequest hrequest]
    rfl
  cases step with
  | handle message =>
      cases message with
      | ping nonce =>
          exact (hanswered _ _).trans (hlearned { running.session with localHeight } nonce)
      | pong nonce => exact hlearned { running.session with localHeight } nonce
      | _ => exact nomatch h
  | _ => exact nomatch h

theorem bare_play (hclient : client.Heedless) {other : Running σ}
    (h : other.bare = running.bare) (turns : List Turn) :
    (play client other (withoutHeartbeats turns)).bare = (play client running turns).bare := by
  unfold play withoutHeartbeats
  induction turns generalizing running other with
  | nil => exact h
  | cons turn turns ih =>
      rw [List.foldl_cons]
      by_cases hbeat : turn.isHeartbeat
      · rw [List.filter_cons_of_neg (by simp [hbeat])]
        exact ih (h.trans (bare_proceed_of_isHeartbeat hbeat).symm)
      · rw [List.filter_cons_of_pos (by simp [hbeat]), List.foldl_cons]
        exact ih (concur_of_bare_eq hclient h turn).bare_eq

/-- A ping is answered once with our own height, whether or not the link takes the
answer, and nobody else is told of it. -/
theorem journal_proceed_ping (running : Running σ) (nonce : UInt64) (localHeight : UInt32) :
    ∃ added, (proceed client running ⟨.handle (.ping nonce), localHeight⟩).1.session.journal =
        running.session.journal ++ added ∧
      traffic added = [.offered (.pong localHeight.toUInt64) running.session.takes] := by
  let moment : Moment := ⟨{ running.session with localHeight }, .came (.ping nonce)⟩
  have heffects :
      moment.effects = [.offered (.pong localHeight.toUInt64) running.session.takes] := by
    have hoffers : moment.offers = [.pong localHeight.toUInt64] := rfl
    have hheard : moment.heard = [] := hearing_nil _
    rw [Moment.effects, hoffers, hheard]
    rfl
  rw [← heffects]
  exact (undergoes_ping moment.session nonce).journal

/-- A pong is not answered, and nobody is told of it. -/
theorem journal_proceed_pong (running : Running σ) (nonce : UInt64) (localHeight : UInt32) :
    ∃ added, (proceed client running ⟨.handle (.pong nonce), localHeight⟩).1.session.journal =
        running.session.journal ++ added ∧ traffic added = [] :=
  (undergoes_learnHeight { running.session with localHeight } nonce).journal

variable (client)

/-- What pings and pongs do in a run. -/
structure Heartbeats (start : Running σ) (turns : List Turn) : Prop where
  /-- At every moment, the height is the last that was set or told by a ping or a pong. -/
  height_eq : ∀ earlier moment later,
    chronicle client start turns = earlier ++ moment :: later →
      moment.session.height = (earlier.filterMap Moment.height?).getLast?.getD 0
  height_play : (play client start turns).session.height =
    ((chronicle client start turns).filterMap Moment.height?).getLast?.getD 0
  /-- A ping is answered once, with our own height at that time. -/
  ping : ∀ earlier nonce localHeight later,
    turns = earlier ++ ⟨.handle (.ping nonce), localHeight⟩ :: later →
      let here := play client start earlier
      ∃ added, (proceed client here ⟨.handle (.ping nonce), localHeight⟩).1.session.journal =
          here.session.journal ++ added ∧
        traffic added = [.offered (.pong localHeight.toUInt64) here.session.takes]
  /-- A pong is not answered. -/
  pong : ∀ earlier nonce localHeight later,
    turns = earlier ++ ⟨.handle (.pong nonce), localHeight⟩ :: later →
      let here := play client start earlier
      ∃ added, (proceed client here ⟨.handle (.pong nonce), localHeight⟩).1.session.journal =
          here.session.journal ++ added ∧ traffic added = []

/-- What pings and pongs leave as it is in a run. -/
structure Unobtrusive (start : Running σ) (turns : List Turn) : Prop where
  /-- Every other turn has the same effects without them and, unless it asks for the
  height, the same result. -/
  concur : ∀ earlier turn later, turns = earlier ++ turn :: later → turn.isHeartbeat = false →
    Concur client (play client start earlier) (play client start (withoutHeartbeats earlier)) turn
  /-- In the end, nothing but the height and the journal tells that they came. -/
  bare_eq : (play client start (withoutHeartbeats turns)).bare = (play client start turns).bare

/-- In every run, with whatever client, pings and pongs tell the height. They do nothing
else unless the client heeds the height. -/
theorem heartbeats_unobtrusive (addr : Endpoint) (localHeight : UInt32) (settings : Settings)
    (clock : Nat) (memory : σ) (turns : List Turn) :
    let start : Running σ := ⟨.start addr localHeight settings clock, memory⟩
    Heartbeats client start turns ∧ (client.Heedless → Unobtrusive client start turns) := by
  intro start
  obtain ⟨hinformed, htold⟩ := informed_chronicle client start turns
  constructor
  · refine ⟨?_, htold.trans (told_eq 0 _), ?_, ?_⟩
    · intro earlier moment later hsplit
      rw [hsplit] at hinformed
      obtain ⟨-, hmoment, -⟩ := informed_append.mp hinformed
      exact hmoment.trans (told_eq 0 earlier)
    · intro earlier nonce localHeight later _
      exact journal_proceed_ping _ nonce localHeight
    · intro earlier nonce localHeight later _
      exact journal_proceed_pong _ nonce localHeight
  · intro hclient
    refine ⟨?_, bare_play hclient rfl turns⟩
    intro earlier turn later _ _
    exact concur_of_bare_eq hclient (bare_play hclient rfl earlier) turn

/-- The syncing client does not heed the height. A ping and a pong come around a block. -/
theorem heartbeats_unobtrusive_syncing :
    let client := Client.syncing fun _ => none
    let start : Running (List Client.Note) := ⟨.start (.v4 ⟨127, 0, 0, 1⟩ 8333) 1 {} 0, []⟩
    let block : MerkleBlock := ⟨⟨1, .zero, .zero, 0, 0, 0⟩, 1, [.zero], [1]⟩
    let turns : List Turn := [⟨.handle (.ping 5), 1⟩, ⟨.handle (.merkleBlock block), 1⟩,
      ⟨.handle (.pong 6), 1⟩, ⟨.call .height, 1⟩]
    client.Heedless ∧
      sent (play client start turns).session.journal = [.pong 1, .getData [⟨.tx, .zero⟩]] ∧
      Heartbeats client start turns ∧ Unobtrusive client start turns := by
  intro client start block turns
  have hheedless : client.Heedless := Client.heedless_syncing _
  have hsent : sent (play client start turns).session.journal =
      [.pong 1, .getData [⟨.tx, .zero⟩]] := by decide +kernel
  obtain ⟨hbeats, hunobtrusive⟩ :=
    heartbeats_unobtrusive client (.v4 ⟨127, 0, 0, 1⟩ 8333) 1 {} 0 [] turns
  exact ⟨hheedless, hsent, hbeats, hunobtrusive hheedless⟩

/-- A client that heeds the height may send something after a ping that it does not send
without. -/
theorem eager_heeds_ping :
    let start : Running Unit := ⟨.start (.v4 ⟨127, 0, 0, 1⟩ 8333) 0 {} 0, ()⟩
    let turns : List Turn := [⟨.handle (.ping 5), 0⟩, ⟨.handle (.inv []), 0⟩]
    sent (play Client.eager start turns).session.journal =
        [.pong 0, .getBlocks { locators := [], stop := .zero }] ∧
      sent (play Client.eager start (withoutHeartbeats turns)).session.journal = [] ∧
      ¬ Unobtrusive Client.eager start turns := by
  intro start turns
  have hsent : sent (play Client.eager start turns).session.journal =
      [.pong 0, .getBlocks { locators := [], stop := .zero }] := by decide +kernel
  have hquiet : sent (play Client.eager start (withoutHeartbeats turns)).session.journal = [] := by
    decide +kernel
  refine ⟨hsent, hquiet, ?_⟩
  intro hunobtrusive
  have hping : sent (play Client.eager start [⟨.handle (.ping 5), 0⟩]).session.journal =
      [.pong 0] := by decide +kernel
  have hconcur := hunobtrusive.concur [⟨.handle (.ping 5), 0⟩] ⟨.handle (.inv []), 0⟩ [] rfl rfl
  obtain ⟨messages, hwith, hwithout⟩ := hconcur.exists_sent
  have hnone : messages = [] := (List.append_eq_nil_iff.mp (hwithout.symm.trans hquiet)).2
  rw [hping, hnone] at hwith
  exact absurd (hwith.symm.trans hsent) (by decide)

end Running

end LightPeer
