import BundleLink.Fragment

/-!
# What can go wrong with a bundle

* `BundleError`              why a buffer is not cut into fragments, or fragments are not put
  together to a buffer;
* `BundleError.isViolation`  the error is about the fragments received, not about arguments.
-/

namespace BundleLink

inductive BundleError where
  | emptyBuffer
  | invalidFragmentSize (size : Nat)
  | tooManyFragments (length size : Nat)
  | missingHeader
  | inconsistentCount (declared : Int16) (actual : Nat)
  | mismatchedMessage (expected actual : UInt64)
  | nonSequential (expected : Nat) (actual : Int32)
  | checksumMismatch (number : Int32) (expected actual : UInt64)
  | fragment (e : FragmentError)
  deriving DecidableEq, Repr

namespace BundleError

def message : BundleError → String
  | .emptyBuffer => "cannot fragment an empty buffer"
  | .invalidFragmentSize size =>
    s!"fragment size must be between 1 and {Fragment.maxPayload}, was {size}"
  | .tooManyFragments length size =>
    s!"a buffer of {length} bytes needs more than {Fragment.maxCount} fragments of {size} bytes"
  | .missingHeader => "fragment set has no header fragment"
  | .inconsistentCount declared actual =>
    s!"header declares {declared} data fragments, but {actual} are present"
  | .mismatchedMessage expected actual =>
    s!"fragment for message {actual} in a bundle for message {expected}"
  | .nonSequential expected actual => s!"expected fragment #{expected}, found #{actual}"
  | .checksumMismatch number expected actual =>
    s!"checksum mismatch in fragment #{number}: carried {expected}, calculated {actual}"
  | .fragment e => e.message

/-- the error says that received fragments do not form a bundle -/
def isViolation : BundleError → Bool
  | .missingHeader | .inconsistentCount .. | .mismatchedMessage .. | .nonSequential ..
  | .checksumMismatch .. => true
  | .emptyBuffer | .invalidFragmentSize .. | .tooManyFragments .. | .fragment .. => false

end BundleError

end BundleLink
