import EnvelopeClient.Failure

/-!
# Notices of trouble

Trouble that belongs to no request is announced to every subscriber. The channel keeps the newest
sixteen notices; a subscriber that falls further behind is told how many it lost, and then gets
those that are left.
-/

namespace EnvelopeClient

/-- Everything announced so far. -/
structure Notices where
  /-- How many there have been. -/
  count : Nat
  /-- The newest of them, the newest first. -/
  recent : List Failure

/-- How far a subscriber has read. -/
structure Subscription where
  next : Nat

/-- What a subscriber gets. -/
inductive Notice where
  | failure (f : Failure)
  /-- So many notices were lost. -/
  | lagged (count : Nat)
  /-- There will be no more. -/
  | closed

namespace Notices

/-- How many notices are kept. -/
def capacity : Nat := 16

/-- Nothing announced yet. -/
def empty : Notices := ⟨0, []⟩

/-- Announces a failure. -/
def send (n : Notices) (f : Failure) : Notices :=
  ⟨n.count + 1, (f :: n.recent).take capacity⟩

/-- A subscriber gets what is announced from now on. -/
def subscribe (n : Notices) : Subscription := ⟨n.count⟩

/-- The number of the oldest notice kept. -/
def oldest (n : Notices) : Nat := n.count - n.recent.length

/-- Everything a subscriber has not seen yet; `closed` says that nobody can announce any more. -/
def receive (n : Notices) (s : Subscription) (closed : Bool) : List Notice × Subscription :=
  let lost := n.oldest - s.next
  let unseen := n.count - max s.next n.oldest
  ((if 0 < lost then [.lagged lost] else []) ++
      (n.recent.take unseen).reverse.map .failure ++ (if closed then [.closed] else []),
    ⟨n.count⟩)

end Notices

end EnvelopeClient
