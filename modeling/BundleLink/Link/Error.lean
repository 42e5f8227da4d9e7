import BundleLink.Bundle.Error
import BundleLink.Channel.Basic
import BundleLink.Text.Utf8
import BundleLink.Time.SpanText

/-!
# Errors of a link

Three kinds of errors are FATAL: the channel failed, the peer closed it, or there was no progress
for too long. A link that meets one of them closes. All other errors leave it as it was.
-/

namespace BundleLink

inductive LinkError where
  | notConnected
  | timeout (elapsed : Span)
  | endOfStream
  | io (e : IoError)
  | bundle (e : BundleError)
  | bufferTooSmall (needed available : Nat)
  | invalidText (flaw : Utf8.Flaw)
  deriving DecidableEq, Repr

namespace LinkError

def message : LinkError → String
  | .notConnected => "conduit is not connected"
  | .timeout elapsed => s!"no progress for {elapsed.text}"
  | .endOfStream => "the peer closed the channel"
  | .io e => s!"channel I/O error: {e.message}"
  | .bundle e => e.message
  | .bufferTooSmall needed available =>
    s!"bundle of {needed} bytes does not fit into a buffer of {available} bytes"
  | .invalidText flaw => s!"bundle is not valid UTF-8: {flaw.message}"

/-- the link closes when it meets the error -/
def isFatal : LinkError → Bool
  | .timeout _ | .endOfStream | .io _ => true
  | .notConnected | .bundle _ | .bufferTooSmall .. | .invalidText _ => false

end LinkError

end BundleLink
