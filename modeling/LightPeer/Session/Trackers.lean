import LightPeer.Download.BlockTracker

/-! All block trackers of a session. A tracker keeps its number when another one
becomes current, so whoever remembers the number can go on working with it. -/

namespace LightPeer

/-- The number of a tracker, in the order in which trackers became current. -/
abbrev TrackerId := Nat

/-- The trackers that are or were current. -/
structure Trackers where
  all : List BlockTracker
  current : TrackerId
  current_lt : current < all.length

namespace Trackers

def initial : Trackers := ⟨[.empty], 0, by decide⟩

/-- The tracker of a number; a number that was not given out has no block. -/
def get (trackers : Trackers) (id : TrackerId) : BlockTracker := trackers.all.getD id .empty

def now (trackers : Trackers) : BlockTracker := trackers.get trackers.current

def update (trackers : Trackers) (id : TrackerId) (tracker : BlockTracker) : Trackers :=
  ⟨trackers.all.set id tracker, trackers.current, by simpa using trackers.current_lt⟩

def install (trackers : Trackers) (tracker : BlockTracker) : Trackers :=
  ⟨trackers.all ++ [tracker], trackers.all.length, by simp⟩

@[simp] theorem current_update (trackers : Trackers) (id : TrackerId) (tracker : BlockTracker) :
    (trackers.update id tracker).current = trackers.current := rfl

theorem get_update_self (trackers : Trackers) {id : TrackerId} (tracker : BlockTracker)
    (h : id < trackers.all.length) : (trackers.update id tracker).get id = tracker := by
  simp [get, update, h]

theorem get_update_of_ne (trackers : Trackers) {id other : TrackerId} (tracker : BlockTracker)
    (h : id ≠ other) : (trackers.update id tracker).get other = trackers.get other := by
  simp [get, update, h]

theorem update_update (trackers : Trackers) (id : TrackerId) (first second : BlockTracker) :
    (trackers.update id first).update id second = trackers.update id second := by
  simp [update]

theorem now_update_current (trackers : Trackers) (tracker : BlockTracker) :
    (trackers.update trackers.current tracker).now = tracker :=
  get_update_self trackers tracker trackers.current_lt

@[simp] theorem now_install (trackers : Trackers) (tracker : BlockTracker) :
    (trackers.install tracker).now = tracker := by
  simp [now, get, install]

theorem get_install_of_lt (trackers : Trackers) {id : TrackerId} (tracker : BlockTracker)
    (h : id < trackers.all.length) : (trackers.install tracker).get id = trackers.get id := by
  simp [get, install, h, List.getElem?_append_left h]

end Trackers

end LightPeer
