import Ct.Lib.Machine
import Ct.Uart.ModtaxiSent

set_option autoImplicit false

namespace Ct.Uart

open Ct.Lib

/-- The array of `main`, whatever is in it at the start, and the bytes that the last call of
`uart_read_buf` has received. -/
structure Main where
  data : Bytes
  received : Option Bytes

/-- These bytes of a descriptor are a frame that is a piece of what has been received. -/
def Genuine (bytes desc : Bytes) : Prop :=
  ∃ payload, 0xcc ∉ payload ∧ frame payload <+: desc ∧ frame payload <:+: bytes

/-- Every descriptor that `calcsum` has marked holds a frame of the last call. -/
def Sound (state : Main) : Prop :=
  ∀ bytes, state.received = some bytes →
    ∀ i, i < 3 → valid state.data i = true → Genuine bytes (descBytes state.data i)

/-- What is in `data[j]`, from earlier, does not pass the check. -/
def Unmarked (mem : Bytes) (j : Nat) : Prop := rechecks (mem.drop (descSize * j)) ≠ .ok true

/-- Each of `left` calls of `recv_eecc` from `data[i]` on receives a frame that fits, up to one
whose search comes to a read that fails; what the remaining descriptors hold from earlier does not
pass the check. -/
def CleanReads (mem : Bytes) : Nat → Nat → Reads → Prop
  | 0, _, _ => True
  | left + 1, i, reads =>
    (∃ body rest, Framed reads body rest ∧ body.length + 2 ≤ validOffset ∧
      CleanReads mem left (i + 1) rest) ∨
    (Silent reads ∧ ∀ j, i ≤ j → j < i + (left + 1) → Unmarked mem j)

/-- The same for a call of `uart_read_buf`, which receives nothing where `open` or
`uart_init_taximeter` fails. -/
def Clean (state : Main) (session : Session) : Prop :=
  if session.opened && session.ready then CleanReads state.data 3 0 session.reads
  else ∀ j, j < 3 → Unmarked state.data j

/-- A descriptor after `uart_read_buf`: a frame of this call, or bytes from earlier that do not
pass. -/
def Filled (bytes mem : Bytes) (j : Nat) : Prop :=
  (∃ body, 0xcc ∉ body ∧ stored body <+: descBytes mem j ∧ stored body <:+: bytes) ∨ Unmarked mem j

/-- The bytes that these reads deliver. -/
def delivered (reads : Reads) : Bytes := reads.filterMap id

theorem Filled.mono {bytes more mem : Bytes} {j : Nat} (filled : Filled bytes mem j) :
    Filled (more ++ bytes) mem j := by
  rcases filled with ⟨body, plain, starts, piece⟩ | unmarked
  · exact Or.inl ⟨body, plain, starts, piece.trans (List.suffix_append more bytes).isInfix⟩
  · exact Or.inr unmarked

/-- Only the memory from the first of these descriptors on counts. -/
theorem CleanReads.congr {mem mem' : Bytes} (left : Nat) :
    ∀ {i : Nat} {reads : Reads},
      (∀ j, i ≤ j → mem'.drop (descSize * j) = mem.drop (descSize * j)) →
      CleanReads mem left i reads → CleanReads mem' left i reads := by
  induction left with
  | zero => exact fun _ _ => trivial
  | succ left ih =>
    intro i reads same clean
    rcases clean with ⟨body, tail, framed, fits, clean⟩ | ⟨silent, unmarked⟩
    · exact Or.inl ⟨body, tail, framed, fits, ih (fun j low => same j (Nat.le_of_succ_le low)) clean⟩
    · refine Or.inr ⟨silent, fun j low high => ?_⟩
      rw [Unmarked, same j low]
      exact unmarked j low high

end Ct.Uart
