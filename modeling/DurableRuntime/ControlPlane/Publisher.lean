import DurableRuntime.Shared

/-!
# The outbox publisher

`OutboxPublisher.publishPending` with the store calls `claimPendingOutbox` and
`markOutboxPublished`.  The row locks of the claim end with its commit, before
anything is published.  The update that marks the rows locks them one by one as
its scan meets them, and keeps what it has locked while it waits for the next.
-/

namespace DurableRuntime.Outbox

structure PendingOutboxMessage where
  id : Nat
  tenantId : Uuid
  subject : String
  payload : Payload

inductive Pc where
  | claimBegin
  | claimSelect
  | claimUpdate (messages : List PendingOutboxMessage)
  | claimCommit (messages : List PendingOutboxMessage)
  | publish (messages : List PendingOutboxMessage) (delivered : List Nat)
  | mark (delivered : List Nat)
  | marking (now : Int) (delivered left : List Nat)
  | done (count : Nat)
  | failed

/-- One call of `publishPending`. -/
structure Session where
  limit : Nat
  pc : Pc

/--
What the publisher learns of a publication, where an error can hide that it was
stored; and the place, among the rows left to mark, of the one the scan meets next.
-/
inductive Reply where
  | none
  | acked
  | ackLost
  | failed
  | row (place : Nat)

def OutboxRow.pending (row : OutboxRow) : PendingOutboxMessage :=
  ⟨row.id, row.tenantId, row.subject, row.payload⟩

/-- `where published_at is null order by id for update skip locked limit $1`. -/
def claimPending (s : Shared) (limit : Nat) : List PendingOutboxMessage :=
  (((s.db.outbox.filter fun row => row.publishedAt.isNone && s.free (.outbox row.id)).insertionSort
    fun a b => a.id ≤ b.id).take limit).map OutboxRow.pending

def message (s : Shared) (pending : PendingOutboxMessage) : Message :=
  { row := pending.id, subject := pending.subject, payload := pending.payload,
    tenantId := pending.tenantId, acked := false, availableAt := s.clock }

def step (s : Shared) (limit : Nat) (reply : Reply) : Pc → Option (Pc × Effect)
  | .claimBegin => some (.claimSelect, .none)
  | .claimSelect => some (.claimUpdate (claimPending s limit), .none)
  | .claimUpdate messages => some (.claimCommit messages, .none)
  | .claimCommit messages =>
      some (.publish messages [], .commit (.outboxAttempts (messages.map (·.id))))
  | .publish [] delivered => some (.mark delivered, .none)
  | .publish (pending :: messages) delivered =>
      match reply with
      | .acked =>
          some (.publish messages (delivered ++ [pending.id]), .publish (message s pending))
      | .ackLost => some (.failed, .publish (message s pending))
      | .failed => some (.failed, .none)
      | _ => none
  | .mark delivered =>
      if delivered.isEmpty then some (.done 0, .none)
      else some (.marking s.clock delivered delivered, .none)
  | .marking now delivered [] =>
      some (.done delivered.length, .commit (.outboxPublished delivered now))
  | .marking now delivered left =>
      match reply with
      | .row place =>
          match left[place]? with
          | some id =>
              if s.free (.outbox id) then
                some (.marking now delivered (left.filter fun other => other ≠ id), .none)
              else none
          | none => none
      | _ => none
  | .done _ => none
  | .failed => none

namespace Pc

def held : Pc → List Resource
  | claimUpdate messages | claimCommit messages => messages.map fun message => .outbox message.id
  | marking _ delivered left => (delivered.filter fun id => id ∉ left).map .outbox
  | _ => []

/-- The outbox rows that a position speaks of. -/
def ids : Pc → List Nat
  | claimUpdate messages | claimCommit messages => messages.map (·.id)
  | publish messages delivered => messages.map (·.id) ++ delivered
  | mark delivered | marking _ delivered _ => delivered
  | _ => []

def isRunning : Pc → Bool
  | done _ | failed => false
  | _ => true

end Pc

/-! ## Moves -/

inductive Move (s : Shared) (limit : Nat) : Reply → Pc → Pc → Effect → Prop
  | claimBegin {reply} : Move s limit reply .claimBegin .claimSelect .none
  | claimSelect {reply} :
      Move s limit reply .claimSelect (.claimUpdate (claimPending s limit)) .none
  | claimUpdate {reply} (messages) :
      Move s limit reply (.claimUpdate messages) (.claimCommit messages) .none
  | claimCommit {reply} (messages) :
      Move s limit reply (.claimCommit messages) (.publish messages [])
        (.commit (.outboxAttempts (messages.map (·.id))))
  | publishedAll {reply} (delivered) :
      Move s limit reply (.publish [] delivered) (.mark delivered) .none
  | acked (pending messages delivered) :
      Move s limit .acked (.publish (pending :: messages) delivered)
        (.publish messages (delivered ++ [pending.id])) (.publish (message s pending))
  | ackLost (pending messages delivered) :
      Move s limit .ackLost (.publish (pending :: messages) delivered) .failed
        (.publish (message s pending))
  | failed (pending messages delivered) :
      Move s limit .failed (.publish (pending :: messages) delivered) .failed .none
  | markNone {reply} : Move s limit reply (.mark []) (.done 0) .none
  | markBegin {reply delivered} (hdelivered : delivered ≠ []) :
      Move s limit reply (.mark delivered) (.marking s.clock delivered delivered) .none
  | markRow {now delivered left place id} (hrow : left[place]? = some id)
      (hfree : s.free (.outbox id) = true) :
      Move s limit (.row place) (.marking now delivered left)
        (.marking now delivered (left.filter fun other => other ≠ id)) .none
  | marked {reply} (now delivered) :
      Move s limit reply (.marking now delivered []) (.done delivered.length)
        (.commit (.outboxPublished delivered now))

theorem step_move {s : Shared} {limit : Nat} {reply : Reply} {pc pc' : Pc} {effect : Effect}
    (h : step s limit reply pc = some (pc', effect)) : Move s limit reply pc pc' effect := by
  cases pc with
  | claimBegin =>
      cases h
      exact .claimBegin
  | claimSelect =>
      cases h
      exact .claimSelect
  | claimUpdate messages =>
      cases h
      exact .claimUpdate messages
  | claimCommit messages =>
      cases h
      exact .claimCommit messages
  | publish messages delivered =>
      cases messages with
      | nil =>
          cases h
          exact .publishedAll delivered
      | cons pending messages =>
          cases reply with
          | acked =>
              cases h
              exact .acked pending messages delivered
          | ackLost =>
              cases h
              exact .ackLost pending messages delivered
          | failed =>
              cases h
              exact .failed pending messages delivered
          | _ => cases h
  | mark delivered =>
      cases delivered with
      | nil =>
          cases h
          exact .markNone
      | cons id delivered =>
          cases h
          exact .markBegin (List.cons_ne_nil id delivered)
  | marking now delivered left =>
      cases left with
      | nil =>
          cases h
          exact .marked now delivered
      | cons first left =>
          cases reply with
          | row place =>
              simp only [step] at h
              split at h
              · rename_i id hrow
                split at h
                · rename_i hfree
                  cases h
                  exact .markRow hrow hfree
                · cases h
              · cases h
          | _ => cases h
  | done count => cases h
  | failed => cases h

theorem mem_claimPending {s : Shared} {limit : Nat} {pending : PendingOutboxMessage}
    (h : pending ∈ claimPending s limit) :
    ∃ row ∈ s.db.outbox, pending = OutboxRow.pending row ∧ row.publishedAt = none ∧
      s.free (.outbox row.id) = true := by
  obtain ⟨row, hrow, rfl⟩ := List.mem_map.mp h
  have hmem := (List.mem_insertionSort _).mp (List.mem_of_mem_take hrow)
  obtain ⟨hstored, hselected⟩ := List.mem_filter.mp hmem
  rw [Bool.and_eq_true, Option.isNone_iff_eq_none] at hselected
  exact ⟨row, hstored, rfl, hselected⟩

/-- A position speaks of rows that the one before it spoke of, or that the table has. -/
theorem Move.ids {s : Shared} {limit : Nat} {reply : Reply} {pc pc' : Pc} {effect : Effect}
    (hmove : Move s limit reply pc pc' effect) :
    ∀ id ∈ pc'.ids, id ∈ pc.ids ∨ ∃ row ∈ s.db.outbox, row.id = id := by
  intro id hid
  cases hmove with
  | claimSelect =>
      obtain ⟨pending, hpending, rfl⟩ := List.mem_map.mp hid
      obtain ⟨row, hrow, rfl, -⟩ := mem_claimPending hpending
      exact .inr ⟨row, hrow, rfl⟩
  | claimUpdate => exact .inl hid
  | claimCommit => exact .inl (by simpa [Pc.ids] using hid)
  | publishedAll => exact .inl (by simpa [Pc.ids] using hid)
  | acked pending messages delivered =>
      simp only [Pc.ids, List.map_cons, List.cons_append, List.mem_cons, List.mem_append,
        List.mem_nil_iff, or_false] at hid ⊢
      grind
  | markBegin => exact .inl hid
  | markRow => exact .inl hid
  | _ => cases hid

end DurableRuntime.Outbox
