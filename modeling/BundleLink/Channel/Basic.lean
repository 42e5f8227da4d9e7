import BundleLink.Bytes.Basic

/-!
# Byte channels

A channel moves bytes to and from a peer without ever waiting: a read hands out what is there. Its
state is a plain value, and each call yields a result together with the next state, so any behaviour
of a peer and of the medium between is some `Channel`.

* `Arrival`   what a read finds: bytes, nothing for now, or the end of the stream;
* `IoError`   why a call failed;
* `ChannelUse`  a call as such, for records of calls;
* `Channel`   the four calls, and their laws: a read hands out no more bytes than it was asked for,
  and it does not hand out empty data forever (`lull` counts the empty reads to come).
-/

namespace BundleLink

structure IoError where
  /-- the name of the kind of error -/
  kind : String
  message : String
  deriving DecidableEq, Repr

inductive Arrival where
  | data (bytes : Bytes)
  | nothing
  | endOfStream
  deriving DecidableEq, Repr

inductive ChannelUse where
  | read (count : Nat)
  | write (bytes : Bytes)
  | flush
  | close
  deriving DecidableEq, Repr

class Channel (σ : Type) where
  /-- reads up to a number of bytes -/
  read : Nat → σ → Except IoError Arrival × σ
  /-- writes all bytes of a fragment, or fails -/
  write : Bytes → σ → Except IoError Unit × σ
  flush : σ → Except IoError Unit × σ
  close : σ → Except IoError Unit × σ
  /-- a bound on the reads to come that hand out empty data -/
  lull : σ → Nat
  length_read_le : ∀ (n : Nat) (s : σ) (bs : Bytes), (read n s).1 = .ok (.data bs) → bs.length ≤ n
  lull_read_le : ∀ (n : Nat) (s : σ), lull (read n s).2 ≤ lull s
  lull_read_lt : ∀ (n : Nat) (s : σ), 0 < n → (read n s).1 = .ok (.data []) →
    lull (read n s).2 < lull s

end BundleLink
