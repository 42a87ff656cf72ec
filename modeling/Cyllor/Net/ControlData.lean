import Cyllor.Net.Message

/-!
Contract: which files `do_sendmsg` queues for a control buffer (`net/mod.rs`).

Owns: the headers of a control buffer as a chain, and that the loop of the call passes the files
of its `SCM_RIGHTS` headers exactly when no sum of an offset and a length overflows.
-/

namespace Cyllor.Net

open Cyllor.Fs Cyllor.Syscall

variable {cmsg : List UInt8} {off next : Nat}

/-- There is room for a header, and its length covers it. -/
def IsHeader (cmsg : List UInt8) (off : Nat) : Prop :=
  off + 16 ≤ cmsg.length ∧ 16 ≤ u64Le cmsg off

/-- A header with all its data inside the buffer. -/
def Whole (cmsg : List UInt8) (off : Nat) : Prop :=
  IsHeader cmsg off ∧ off + u64Le cmsg off ≤ cmsg.length

/-- A whole header and the data behind it are followed, aligned, by the next header. -/
def Follows (cmsg : List UInt8) (off next : Nat) : Prop :=
  Whole cmsg off ∧ next = off + cmsgAlign (u64Le cmsg off)

/-- The end of no header from `off` on overflows. -/
def NoOverflow (cmsg : List UInt8) (off : Nat) : Prop :=
  ∀ next, Relation.ReflTransGen (Follows cmsg) off next → IsHeader cmsg next →
    next + u64Le cmsg next < 2 ^ 64

/-- The descriptors that one header passes. -/
def rightsAt (cmsg : List UInt8) (off : Nat) : List Int :=
  if u32Le cmsg (off + 8) = SOL_SOCKET ∧ u32Le cmsg (off + 12) = SCM_RIGHTS then
    rightsIn ((cmsg.drop (off + 16)).take (u64Le cmsg off - 16))
  else []

theorem Follows.lt (follows : Follows cmsg off next) : off < next := by
  have covers := follows.1.1.2
  rw [follows.2, cmsgAlign]
  omega

theorem le_of_reached (reached : Relation.ReflTransGen (Follows cmsg) off next) : off ≤ next := by
  induction reached with
  | refl => exact le_rfl
  | tail _ follows ih => exact ih.trans follows.lt.le

section

variable (broken : ¬ Whole cmsg off)

include broken

theorem eq_of_not_whole (reached : Relation.ReflTransGen (Follows cmsg) off next) :
    next = off := by
  rcases reached.cases_head with rfl | ⟨_, follows, _⟩
  · rfl
  · exact absurd follows.1 broken

/-- The loop ends at a header that is not whole. -/
theorem passedFds_of_not_whole {fuel : Nat} (enough : cmsg.length ≤ off + fuel) (fds : List Int) :
    passedFds cmsg fuel off = some fds ↔ NoOverflow cmsg off ∧ fds = [] := by
  have here : NoOverflow cmsg off ↔ (IsHeader cmsg off → off + u64Le cmsg off < 2 ^ 64) :=
    ⟨fun none => none off .refl, fun none next reached => eq_of_not_whole broken reached ▸ none⟩
  rw [here]
  rw [Whole, IsHeader] at broken
  rw [IsHeader]
  cases fuel with
  | zero => grind [passedFds]
  | succ fuel => grind [passedFds]

end

theorem passedFds_of_whole (whole : Whole cmsg off) (fuel : Nat) :
    passedFds cmsg (fuel + 1) off = if off + u64Le cmsg off < 2 ^ 64 then
      (passedFds cmsg fuel (off + cmsgAlign (u64Le cmsg off))).map (rightsAt cmsg off ++ ·)
    else none := by
  obtain ⟨⟨room, covers⟩, inside⟩ := whole
  rw [passedFds, if_neg (by omega), if_neg (by omega)]
  by_cases small : off + u64Le cmsg off < 2 ^ 64
  · rw [if_neg (by omega), if_neg (by omega), if_pos small]
    rfl
  · rw [if_pos (by omega), if_neg small]

theorem noOverflow_of_whole (whole : Whole cmsg off) :
    NoOverflow cmsg off ↔ off + u64Le cmsg off < 2 ^ 64 ∧
      NoOverflow cmsg (off + cmsgAlign (u64Le cmsg off)) := by
  refine ⟨fun none => ⟨none off .refl whole.1, fun next reached => ?_⟩, ?_⟩
  · exact none next (.head ⟨whole, rfl⟩ reached)
  · rintro ⟨small, later⟩ next reached
    rcases reached.cases_head with rfl | ⟨_, ⟨_, rfl⟩, rest⟩
    · exact fun _ => small
    · exact later next rest

/-- The descriptors passed from `off` on are those of the whole headers of the chain, in order. -/
theorem passedFds_chain (cmsg : List UInt8) (off : Nat) : ∃ offs : List Nat,
    offs.Pairwise (· < ·) ∧
    (∀ next, next ∈ offs ↔ Relation.ReflTransGen (Follows cmsg) off next ∧ Whole cmsg next) ∧
    ∀ fuel, cmsg.length ≤ off + fuel → ∀ fds, passedFds cmsg fuel off = some fds ↔
      NoOverflow cmsg off ∧ fds = offs.flatMap (rightsAt cmsg) := by
  -- every header starts behind the one before, so the rest of the buffer gets shorter
  induction room : cmsg.length - off using Nat.strong_induction_on generalizing off with
  | _ room ih =>
    subst room
    by_cases whole : Whole cmsg off
    · obtain ⟨after, follows⟩ : ∃ after, Follows cmsg off after := ⟨_, whole, rfl⟩
      have room := whole.1.1
      have later := follows.lt
      obtain ⟨offs, sorted, members, passed⟩ := ih (cmsg.length - after) (by omega) after rfl
      refine ⟨off :: offs, List.pairwise_cons.mpr ⟨fun next listed => ?_, sorted⟩, fun next => ?_,
        fun fuel enough fds => ?_⟩
      · exact later.trans_le (le_of_reached ((members next).mp listed).1)
      · rw [List.mem_cons, members]
        constructor
        · rintro (rfl | ⟨reached, isWhole⟩)
          · exact ⟨.refl, whole⟩
          · exact ⟨.head follows reached, isWhole⟩
        · rintro ⟨reached, isWhole⟩
          rcases reached.cases_head with rfl | ⟨_, ⟨_, rfl⟩, rest⟩
          · exact .inl rfl
          · exact .inr ⟨follows.2 ▸ rest, isWhole⟩
      · obtain ⟨fuel, rfl⟩ : ∃ less, fuel = less + 1 := ⟨fuel - 1, by omega⟩
        rw [passedFds_of_whole whole, noOverflow_of_whole whole, ← follows.2, List.flatMap_cons]
        by_cases small : off + u64Le cmsg off < 2 ^ 64
        · rw [if_pos small, Option.map_eq_some_iff]
          simp only [passed fuel (by omega), small, true_and, and_assoc, exists_and_left,
            exists_eq_left, eq_comm]
        · rw [if_neg small]
          exact ⟨by rintro ⟨⟩, fun both => absurd both.1.1 small⟩
    · refine ⟨[], .nil, fun next => ?_, fun fuel enough => passedFds_of_not_whole whole enough⟩
      simp only [List.not_mem_nil, false_iff]
      rintro ⟨reached, isWhole⟩
      exact whole (eq_of_not_whole whole reached ▸ isWhole)

def Tables.passedFile (tables : Tables) (fd : Int) : Option FileId :=
  if 0 ≤ fd then tables.fds.get? fd.toNat else none

theorem queueAt_queueRights (tables : Tables) (peer : Int) (fds : List Int) :
    QueueMap.queueAt (tables.queueRights peer fds).socketRights peer =
      QueueMap.queueAt tables.socketRights peer ++ fds.filterMap tables.passedFile := by
  cases fds with
  | nil => exact (List.append_nil _).symm
  | cons fd fds =>
    rw [Tables.queueRights, if_neg (by simp), QueueMap.queueAt_insert, if_pos rfl]
    rfl

/-- The loop returns, and queues for the peer the open files that the `SCM_RIGHTS` headers inside
the buffer name, in order, exactly when the end of no header of the chain overflows. More rounds
than the buffer has bytes change nothing. -/
theorem rights_queued_iff (cmsg : List UInt8) (tables : Tables) (peer : Int) : ∃ offs : List Nat,
    offs.Pairwise (· < ·) ∧
    (∀ off, off ∈ offs ↔ Relation.ReflTransGen (Follows cmsg) 0 off ∧ Whole cmsg off) ∧
    ∀ extra, (∃ fds, passedFds cmsg (cmsg.length + extra) 0 = some fds ∧
        QueueMap.queueAt (tables.queueRights peer fds).socketRights peer =
          QueueMap.queueAt tables.socketRights peer ++
            offs.flatMap fun off => (rightsAt cmsg off).filterMap tables.passedFile) ↔
      NoOverflow cmsg 0 := by
  obtain ⟨offs, sorted, members, passed⟩ := passedFds_chain cmsg 0
  refine ⟨offs, sorted, members, fun extra => ?_⟩
  have chain := passed (cmsg.length + extra) (by omega)
  constructor
  · rintro ⟨fds, returned, -⟩
    exact ((chain fds).mp returned).1
  · intro none
    refine ⟨_, (chain _).mpr ⟨none, rfl⟩, ?_⟩
    rw [queueAt_queueRights, List.filterMap_flatMap]

/-- The length `2 ^ 64 - 8` of a second header at offset 16 overflows. -/
theorem second_header_overflows :
    passedFds (16 :: List.replicate 15 0 ++ 0xF8 :: List.replicate 15 0xFF) 32 0 = none := by
  decide

end Cyllor.Net
