import Mathlib.Data.List.Count
import Mathlib.Logic.Relation

/-!
# Closing a connection

Two parties share something that each of them frees for itself, and neither may free its side while
the other one still uses it. A party may ask for the end. Whoever has heard the other one ask
acknowledges it when it has finished, and sends nothing any more. Who is sent the acknowledgement
frees its side, and acknowledges too if it has not done so.

The signals of each party arrive in the order they were sent. `Facing w r signals` is what holds
between a party `w`, the other party `r`, and the signals under way from `w` to `r`, however the two
take turns (`Move.keeps`).
-/

namespace EventBus.Transition.Handshake

structure Party where
  asked : Bool
  /-- It has got to know that the other one has asked. -/
  heard : Bool
  acked : Bool
  freed : Bool
  deriving DecidableEq, Repr

inductive Signal
  | ask
  | ack
  | other
  deriving DecidableEq, Repr

/-- What one of the parties has to do with: itself, what is under way to it, and what is under way
from it. -/
structure Local where
  own : Party
  inbox : List Signal
  outbox : List Signal

inductive Move : Local → Local → Prop
  | ask (l : Local) (hasked : l.own.asked = false) (hacked : l.own.acked = false) :
      Move l { l with own := { l.own with asked := true }, outbox := l.outbox ++ [.ask] }
  | hear {l : Local} {rest : List Signal} (hinbox : l.inbox = .ask :: rest) :
      Move l { l with own := { l.own with heard := true }, inbox := rest }
  | ack (l : Local) (hheard : l.own.heard = true) (hacked : l.own.acked = false) :
      Move l { l with own := { l.own with acked := true }, outbox := l.outbox ++ [.ack] }
  | free {l : Local} {rest : List Signal} (hinbox : l.inbox = .ack :: rest) :
      Move l ⟨{ l.own with acked := true, freed := true }, rest,
        if l.own.acked then l.outbox else l.outbox ++ [.ack]⟩
  | post (l : Local) (hacked : l.own.acked = false) :
      Move l { l with outbox := l.outbox ++ [.other] }
  | take {l : Local} {rest : List Signal} (hinbox : l.inbox = .other :: rest) :
      Move l { l with inbox := rest }

structure Facing (w r : Party) (signals : List Signal) : Prop where
  asks : signals.count .ask = if w.asked && !r.heard then 1 else 0
  acks : signals.count .ack = if w.acked && !r.freed then 1 else 0
  /-- Nothing comes after the acknowledgement. -/
  last : Signal.ack ∉ signals.dropLast
  heard : r.heard = true → w.asked = true
  acked : w.acked = true → r.asked = true ∨ w.freed = true ∧ r.acked = true
  freed : r.freed = true → w.acked = true ∧ signals = []
  self : w.freed = true → w.acked = true

/-- Both ways between a party and the other one. -/
structure Between (l : Local) (peer : Party) : Prop where
  out : Facing l.own peer l.outbox
  into : Facing peer l.own l.inbox

def Party.fresh : Party := ⟨false, false, false, false⟩

theorem between_fresh : Between ⟨.fresh, [], []⟩ .fresh := by
  constructor <;> constructor <;> simp [Party.fresh]

section
variable {l l' : Local} {w r peer : Party} {signals rest : List Signal} {signal : Signal}

/-- Who may still send something has somebody to send it to. -/
theorem Facing.not_freed (h : Facing w r signals) (hacked : w.acked = false) : r.freed = false := by
  cases hfreed : r.freed with
  | false => rfl
  | true => rw [(h.freed hfreed).1] at hacked; cases hacked

theorem Facing.ack_notMem (h : Facing w r signals) (hacked : w.acked = false) :
    Signal.ack ∉ signals := by
  rw [← List.count_eq_zero, h.acks, hacked]
  rfl

theorem Facing.last_append (h : Facing w r signals) (hacked : w.acked = false) :
    Signal.ack ∉ (signals ++ [signal]).dropLast := by
  rw [List.dropLast_concat]
  exact h.ack_notMem hacked

theorem Facing.last_tail (h : Facing w r (signal :: rest)) : Signal.ack ∉ rest.dropLast := by
  cases rest with
  | nil => simp
  | cons => exact fun hmem => h.last (List.mem_cons_of_mem _ hmem)

theorem Facing.rest_eq_nil (h : Facing w r (.ack :: rest)) : rest = [] := by
  cases rest with
  | nil => rfl
  | cons => exact absurd List.mem_cons_self h.last

/-- Who is sent a signal is still there. -/
theorem Facing.alive (h : Facing w r (signal :: rest)) : r.freed = false := by
  cases hfreed : r.freed with
  | false => rfl
  | true => exact absurd (h.freed hfreed).2 (List.cons_ne_nil _ _)

theorem Facing.heard_of_ask (h : Facing w r (.ask :: rest)) :
    w.asked = true ∧ r.heard = false := by
  have hasks := h.asks
  rw [List.count_cons_self] at hasks
  cases hasked : w.asked <;> cases hheard : r.heard <;> simp_all

theorem Facing.acked_of_ack (h : Facing w r (.ack :: rest)) :
    w.acked = true ∧ (r.asked = true ∨ r.acked = true) := by
  have hacks := h.acks
  rw [List.count_cons_self] at hacks
  have hacked : w.acked = true := by
    cases hacked : w.acked <;> simp_all
  exact ⟨hacked, (h.acked hacked).imp_right And.right⟩

/-- A signal from a party that may still send. -/
theorem Facing.send (h : Facing w r signals) (hacked : w.acked = false) :
    Facing w r (signals ++ [.other]) where
  asks := by simp [h.asks]
  acks := by simp [h.acks]
  last := h.last_append hacked
  heard := h.heard
  acked := h.acked
  freed hfreed := absurd hfreed (by simp [h.not_freed hacked])
  self := h.self

theorem Facing.receive (h : Facing w r (.other :: rest)) : Facing w r rest where
  asks := by simpa using h.asks
  acks := by simpa using h.acks
  last := h.last_tail
  heard := h.heard
  acked := h.acked
  freed hfreed := absurd hfreed (by simp [h.alive])
  self := h.self

/-- **What holds between the two parties goes on holding**, whatever one of them does. -/
theorem Move.keeps (hmove : Move l l') (h : Between l peer) : Between l' peer := by
  obtain ⟨hout, hinto⟩ := h
  cases hmove with
  | ask hasked hacked =>
      have hheard : peer.heard = false := by
        cases hheard : peer.heard with
        | false => rfl
        | true => rw [hout.heard hheard] at hasked; cases hasked
      have hasks := hout.asks
      rw [hasked, Bool.false_and] at hasks
      constructor
      · exact ⟨by simp [hasks, hheard], by simp [hout.acks], hout.last_append hacked,
          fun _ => rfl, hout.acked, fun hfreed => absurd hfreed (by simp [hout.not_freed hacked]),
          hout.self⟩
      · exact ⟨hinto.asks, hinto.acks, hinto.last, hinto.heard, fun hacked => .inl rfl,
          hinto.freed, hinto.self⟩
  | @hear rest hinbox =>
      rw [hinbox] at hinto
      obtain ⟨hasked, hheard⟩ := hinto.heard_of_ask
      have hasks := hinto.asks
      rw [List.count_cons_self, hasked, hheard] at hasks
      have halive := hinto.alive
      constructor
      · exact ⟨hout.asks, hout.acks, hout.last, hout.heard, hout.acked, hout.freed, hout.self⟩
      · exact ⟨by simpa using hasks, by simpa using hinto.acks, hinto.last_tail,
          fun _ => hasked, hinto.acked, fun hfreed => absurd hfreed (by simp [halive]),
          hinto.self⟩
  | ack hheard hacked =>
      have halive := hout.not_freed hacked
      have hacks := hout.acks
      rw [hacked, Bool.false_and] at hacks
      constructor
      · exact ⟨by simp [hout.asks], by simp [hacks, halive], hout.last_append hacked, hout.heard,
          fun _ => .inl (hinto.heard hheard), fun hfreed => absurd hfreed (by simp [halive]),
          fun _ => rfl⟩
      · exact ⟨hinto.asks, hinto.acks, hinto.last, hinto.heard,
          fun hpeer => (hinto.acked hpeer).imp_right fun hfreed => ⟨hfreed.1, rfl⟩,
          hinto.freed, hinto.self⟩
  | @free rest hinbox =>
      rw [hinbox] at hinto
      obtain rfl := hinto.rest_eq_nil
      obtain ⟨hpeer, -⟩ := hinto.acked_of_ack
      constructor
      · cases hacked : l.own.acked with
        | true =>
            rw [if_pos rfl]
            have hacks := hout.acks
            rw [hacked] at hacks
            exact ⟨hout.asks, hacks, hout.last, hout.heard,
              fun _ => (hout.acked hacked).imp_right fun hfreed => ⟨rfl, hfreed.2⟩,
              fun hfreed => ⟨rfl, (hout.freed hfreed).2⟩, fun _ => rfl⟩
        | false =>
            rw [if_neg Bool.false_ne_true]
            have halive := hout.not_freed hacked
            have hacks := hout.acks
            rw [hacked, Bool.false_and] at hacks
            exact ⟨by simp [hout.asks], by simp [hacks, halive], hout.last_append hacked,
              hout.heard, fun _ => .inr ⟨rfl, hpeer⟩,
              fun hfreed => absurd hfreed (by simp [halive]), fun _ => rfl⟩
      · have hasks := hinto.asks
        exact ⟨by simpa using hasks, by simp, by simp, hinto.heard,
          fun hacked => (hinto.acked hacked).imp_right fun hfreed => ⟨hfreed.1, rfl⟩,
          fun _ => ⟨hpeer, rfl⟩, hinto.self⟩
  | post hacked =>
      exact ⟨hout.send hacked, hinto⟩
  | @take rest hinbox =>
      rw [hinbox] at hinto
      exact ⟨hout, hinto.receive⟩

theorem Between.symm (h : Between l peer) : Between ⟨peer, l.outbox, l.inbox⟩ l.own :=
  ⟨h.into, h.out⟩

theorem Between.moves (hmoves : Relation.ReflTransGen Move l l') (h : Between l peer) :
    Between l' peer := by
  induction hmoves with
  | refl => exact h
  | tail _ hmove ih => exact hmove.keeps ih

/-- **Closing comes to an end**: when nothing is under way, and whoever has heard the other one ask
has acknowledged it, an end that anybody asked for is over for both. -/
theorem Between.freed (h : Between l peer) (hinbox : l.inbox = []) (houtbox : l.outbox = [])
    (hown : l.own.heard = true → l.own.acked = true)
    (hpeer : peer.heard = true → peer.acked = true)
    (hasked : l.own.asked = true ∨ peer.asked = true) :
    l.own.freed = true ∧ peer.freed = true := by
  obtain ⟨hout, hinto⟩ := h
  rw [houtbox] at hout
  rw [hinbox] at hinto
  -- along each way: who asks is heard, and an acknowledgement frees
  have hway : ∀ {w r : Party}, Facing w r [] →
      (w.asked = true → r.heard = true) ∧ (w.acked = true → r.freed = true) := by
    intro w r h
    have hasks := h.asks
    have hacks := h.acks
    constructor
    · intro hw
      cases hr : r.heard <;> simp_all
    · intro hw
      cases hr : r.freed <;> simp_all
  obtain ⟨hask, hack⟩ := hway hout
  obtain ⟨hask', hack'⟩ := hway hinto
  rcases hasked with hasked | hasked
  · have hfreed := hack' (hpeer (hask hasked))
    exact ⟨hfreed, hack (hout.self hfreed)⟩
  · have hfreed := hack (hown (hask' hasked))
    exact ⟨hack' (hinto.self hfreed), hfreed⟩

end

end EventBus.Transition.Handshake
