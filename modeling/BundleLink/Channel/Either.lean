import BundleLink.Channel.Basic

/-!
# Channels of two kinds

Where channels of two types occur side by side, their sum is a channel: each call goes to the side
that is there.
-/

namespace BundleLink

variable {σ τ : Type}

/-- a result, with its state on the left or on the right -/
def onLeft {ρ : Type} (r : ρ × σ) : ρ × (σ ⊕ τ) := (r.1, .inl r.2)

def onRight {ρ : Type} (r : ρ × τ) : ρ × (σ ⊕ τ) := (r.1, .inr r.2)

instance [Channel σ] [Channel τ] : Channel (σ ⊕ τ) where
  read
    | n, .inl s => onLeft (Channel.read n s)
    | n, .inr t => onRight (Channel.read n t)
  write
    | bs, .inl s => onLeft (Channel.write bs s)
    | bs, .inr t => onRight (Channel.write bs t)
  flush
    | .inl s => onLeft (Channel.flush s)
    | .inr t => onRight (Channel.flush t)
  close
    | .inl s => onLeft (Channel.close s)
    | .inr t => onRight (Channel.close t)
  lull
    | .inl s => Channel.lull s
    | .inr t => Channel.lull t
  length_read_le
    | n, .inl s, bs, h => Channel.length_read_le n s bs h
    | n, .inr t, bs, h => Channel.length_read_le n t bs h
  lull_read_le
    | n, .inl s => Channel.lull_read_le n s
    | n, .inr t => Channel.lull_read_le n t
  lull_read_lt
    | n, .inl s, hn, h => Channel.lull_read_lt n s hn h
    | n, .inr t, hn, h => Channel.lull_read_lt n t hn h

end BundleLink
