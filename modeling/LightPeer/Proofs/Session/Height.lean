import LightPeer.Proofs.Session.History

/-! # The peer's height is the one told last

Pings and pongs tell the height, unless their nonce is too wide for one, and so does
whoever sets it. Nothing else in a session changes the height. -/

namespace LightPeer

/-- The height that a nonce stands for; a wider number is no height. -/
def heightOfNonce? (nonce : UInt64) : Option UInt32 :=
  if nonce.toNat < 2 ^ 32 then some nonce.toUInt32 else none

/-- The height that a message tells. -/
def Message.height? : Message → Option UInt32
  | ping nonce | pong nonce => heightOfNonce? nonce
  | _ => none

namespace Session

/-- The height that a deed tells. -/
def Deed.height? : Deed → Option UInt32
  | came message => message.height?
  | called (.setHeight height) => some height
  | called _ => none

def Moment.height? (moment : Moment) : Option UInt32 := moment.deed.height?

/-- The height that is known after some deeds, if one was known before. -/
def told (height : UInt32) (course : List Moment) : UInt32 :=
  course.foldl (fun known moment => moment.height?.getD known) height

/-- At every moment the height is the one told last. -/
def Informed (height : UInt32) : List Moment → Prop
  | [] => True
  | moment :: course =>
    moment.session.height = height ∧ Informed (moment.height?.getD height) course

theorem told_append (height : UInt32) (first last : List Moment) :
    told height (first ++ last) = told (told height first) last :=
  List.foldl_append

theorem informed_append {height : UInt32} {first last : List Moment} :
    Informed height (first ++ last) ↔ Informed height first ∧ Informed (told height first) last := by
  induction first generalizing height with
  | nil => simp [Informed, told]
  | cons moment first ih =>
      rw [List.cons_append, Informed, Informed, ih, and_assoc]
      rfl

/-- The height known in the end is the last one that was told. -/
theorem told_eq (height : UInt32) (course : List Moment) :
    told height course = (course.filterMap Moment.height?).getLast?.getD height := by
  induction course generalizing height with
  | nil => rfl
  | cons moment course ih =>
      have htold : told height (moment :: course) =
          told (moment.height?.getD height) course := rfl
      rw [htold, ih]
      cases hheight : moment.height? with
      | none => rw [List.filterMap_cons_none hheight, Option.getD_none]
      | some new =>
          rw [List.filterMap_cons_some hheight, List.getLast?_cons, Option.getD_some,
            Option.getD_some]

/-! ## Deeds -/

theorem height_learnHeight (session : Session) (nonce : UInt64) :
    (session.learnHeight nonce).height = (heightOfNonce? nonce).getD session.height := by
  have hnarrow : nonce ≤ 0xffffffff ↔ nonce.toNat < 2 ^ 32 := by
    rw [UInt64.le_iff_toNat_le]
    exact Nat.lt_succ_iff.symm
  unfold learnHeight heightOfNonce?
  by_cases h : nonce ≤ 0xffffffff
  · rw [if_pos h, if_pos (hnarrow.mp h), Option.getD_some]
  · rw [if_neg h, if_neg (mt hnarrow.mpr h), Option.getD_none]
    rfl

theorem height_send (session : Session) (message : Message) :
    (session.send message).1.height = session.height :=
  congrArg Books.height (books_send session message)

theorem height_alert (session : Session) (message : Message) :
    (Running.alert session message).height = session.height :=
  congrArg Books.height (books_alert session message)

theorem height_perform (session : Session) (call : Call) :
    (session.perform call).1.height = (Deed.called call).height?.getD session.height := by
  have hbooks := congrArg Books.height (books_perform session call)
  cases call <;> exact hbooks

theorem height_next (moment : Moment) :
    moment.next.height = moment.height?.getD moment.session.height := by
  obtain ⟨session, deed⟩ := moment
  cases deed with
  | came message =>
      cases message with
      | ping nonce => exact (height_send _ _).trans (height_learnHeight session nonce)
      | pong nonce => exact height_learnHeight session nonce
      | _ => exact height_alert session _
  | called call => exact height_perform session call

/-! ## Steps -/

theorem historical_told (height : UInt32) :
    Historical fun history session => session.height = told height history where
  deed moment h := by
    rw [height_next, h, told_append]
    rfl
  emit _ h := h
  tick now h := (congrArg Books.height (books_tick _ now)).trans h
  refuse _ h := h

theorem informed_of_throughout {height : UInt32} {history course : List Moment}
    (h : Throughout (fun history session => session.height = told height history) history course) :
    Informed (told height history) course := by
  induction course generalizing history with
  | nil => trivial
  | cons moment course ih =>
      obtain ⟨hmoment, hrest⟩ := h
      have hinformed := ih hrest
      rw [told_append] at hinformed
      exact ⟨hmoment, hinformed⟩

end Session

open Session

/-- Throughout a step and after it, the height is the one told last. -/
theorem Running.informed_step {σ : Type} (client : Client σ) (running : Running σ) (step : Step) :
    Informed running.session.height (moments client running step) ∧
      (Running.step client running step).1.session.height =
        told running.session.height (moments client running step) := by
  have htold : running.session.height = told running.session.height [] := rfl
  obtain ⟨hthroughout, hend⟩ := (historical_told _).step client running step htold
  exact ⟨informed_of_throughout hthroughout, hend⟩

end LightPeer
