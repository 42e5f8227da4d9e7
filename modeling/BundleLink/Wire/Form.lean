import BundleLink.Fragment
import BundleLink.Layout

/-!
# The wire form of a fragment

All numbers are written with the most significant byte first:

    magic marker   4 bytes
    generation     8
    message        8
    number         4   signed
    length         2   signed
    checksum       8   in the checksummed layout only
    payload            data fragments only

* `Fragment.wire`        the wire form, `Fragment.wireLength` its length;
* `Fragment.wires`       the wire forms of several fragments, one after the other.
-/

namespace BundleLink.Fragment

def wireLength (layout : Layout) (f : Fragment) : Nat := layout.headerLength + f.bytes.length

/-- the fields before the payload -/
def wireHeader (layout : Layout) (f : Fragment) : Bytes :=
  magic ++ BigEndian.put 8 f.generation.toNat ++ BigEndian.put 8 f.message.toNat
    ++ BigEndian.put 4 f.number.toUInt32.toNat ++ BigEndian.put 2 f.length.toUInt16.toNat
    ++ layout.putChecksum f.checksum

def wire (layout : Layout) (f : Fragment) : Bytes := f.wireHeader layout ++ f.bytes

def wires (layout : Layout) (fs : List Fragment) : Bytes := fs.flatMap (wire layout)

@[simp] theorem length_wireHeader (layout : Layout) (f : Fragment) :
    (f.wireHeader layout).length = layout.headerLength := by
  simp [wireHeader, magic, Layout.headerLength, Layout.baseLength]
  omega

@[simp] theorem length_wire (layout : Layout) (f : Fragment) :
    (f.wire layout).length = f.wireLength layout := by
  simp [wire, wireLength]

@[simp] theorem wires_nil (layout : Layout) : wires layout [] = [] := rfl

@[simp] theorem wires_cons (layout : Layout) (f : Fragment) (fs : List Fragment) :
    wires layout (f :: fs) = f.wire layout ++ wires layout fs := rfl

@[simp] theorem wires_append (layout : Layout) (fs gs : List Fragment) :
    wires layout (fs ++ gs) = wires layout fs ++ wires layout gs := List.flatMap_append

end BundleLink.Fragment
