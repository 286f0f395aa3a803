/-!
# List and non-null wrappers packed into one word

A type reference carries at most eleven list wrappers around its named type, each of them and the
named type itself nullable or required. A `Wrapping` packs all of that into sixteen bits:

* bit 0: whether the named type is required,
* bits 1 to 4: the number of list wrappers,
* bits 5 and up: one bit per list, innermost first, set when that list is required.

`Wrapping.Layers` is the same information as a pair, the form in which completion and coercion
walk a type.
-/

namespace GraphQL

/-- Whether a list wrapper may be null. -/
inductive ListWrapping where
  | required
  | nullable
deriving DecidableEq, Repr

/-- The wrappers of a type reference, packed into a word. -/
structure Wrapping where
  bits : UInt16
deriving DecidableEq, Repr

namespace Wrapping

/-- The greatest number of nested lists that the word has room for. -/
def maxLists : Nat := 11

/-- What is reported when a list is wrapped around `maxLists` lists. -/
def overflowMessage : String := "too many list wrappings"

/-- The bits that hold the number of lists. -/
def countMask : UInt16 := 0b11110

/-- A bare nullable type. -/
def nullable : Wrapping := ⟨0⟩

/-- A bare required type. -/
def required : Wrapping := ⟨1⟩

/-- A bare type, required or not. -/
def ofRequired : Bool → Wrapping
  | true => required
  | false => nullable

/-- The number of list wrappers. -/
def listCount (w : Wrapping) : Nat := ((w.bits &&& countMask) >>> 1).toNat

/-- The bit of the list at the given index, counted from the innermost one. -/
def listFlag (index : Nat) : UInt16 := 1 <<< UInt16.ofNat (5 + index)

/-- Overwrites the number of lists and leaves every other bit alone. -/
def withListCount (w : Wrapping) (count : Nat) : Wrapping :=
  ⟨(w.bits &&& ~~~countMask) ||| (UInt16.ofNat count <<< 1)⟩

/-- Whether a bit of the mask is set. -/
def hasBit (w : Wrapping) (mask : UInt16) : Bool := w.bits &&& mask != 0

/-- Whether the named type is required. -/
def innerIsRequired (w : Wrapping) : Bool := w.hasBit 1

/-- The bit that tells whether the outermost wrapper, list or named type, is required. -/
def outerFlag (w : Wrapping) : UInt16 :=
  match w.listCount with
  | 0 => 1
  | n + 1 => listFlag n

/-- Whether the outermost wrapper, list or named type, is required. -/
def isRequired (w : Wrapping) : Bool := w.hasBit w.outerFlag

/-- Whether the outermost wrapper, list or named type, may be null. -/
def isNullable (w : Wrapping) : Bool := !w.isRequired

/-- Whether there is a list wrapper. -/
def isList (w : Wrapping) : Bool := w.listCount > 0

/-- Whether there is any wrapper at all. -/
def isWrapped (w : Wrapping) : Bool := w.bits != 0

/-- Puts a nullable list around the type, unless there are `maxLists` lists already. -/
def wrapList? (w : Wrapping) : Option Wrapping :=
  if w.listCount < maxLists then
    some ⟨(w.withListCount (w.listCount + 1)).bits &&& ~~~listFlag w.listCount⟩
  else none

/-- Puts a required list around the type, unless there are `maxLists` lists already. -/
def wrapListNonNull? (w : Wrapping) : Option Wrapping :=
  if w.listCount < maxLists then
    some ⟨(w.withListCount (w.listCount + 1)).bits ||| listFlag w.listCount⟩
  else none

/-- Puts a list around the type. -/
def pushList? (w : Wrapping) : ListWrapping → Option Wrapping
  | .required => w.wrapListNonNull?
  | .nullable => w.wrapList?

/-- Makes the outermost wrapper required. -/
def wrapNonNull (w : Wrapping) : Wrapping := ⟨w.bits ||| w.outerFlag⟩

/-- Makes the outermost wrapper nullable. -/
def withoutNonNull (w : Wrapping) : Wrapping := ⟨w.bits &&& ~~~w.outerFlag⟩

/-- The list wrapper at the given index, counted from the innermost one. -/
def listAt (w : Wrapping) (index : Nat) : ListWrapping :=
  if w.hasBit (listFlag index) then .required else .nullable

/-- Takes the outermost list off and returns it with what it wrapped. -/
def popList? (w : Wrapping) : Option (ListWrapping × Wrapping) :=
  match w.listCount with
  | 0 => none
  | n + 1 => some (w.listAt n, withListCount ⟨w.bits &&& ~~~listFlag n⟩ n)

/-- The wrapping of the items of a list. -/
def withoutList? (w : Wrapping) : Option Wrapping := w.popList?.map Prod.snd

/-- The list wrappers from the innermost to the outermost one. -/
def listWrappings (w : Wrapping) : List ListWrapping := (List.range w.listCount).map w.listAt

/-- How a list wrapper closes in the text of a type. -/
def closing : ListWrapping → String
  | .required => "]!"
  | .nullable => "]"

/-- The text of a type of the given name with these wrappers. -/
def display (w : Wrapping) (name : String) : String :=
  String.join (List.replicate w.listCount "[") ++ name ++ (if w.innerIsRequired then "!" else "") ++
    String.join (w.listWrappings.map closing)

/-- The wrappers as a value: is the named type required, and the lists around it, innermost first. -/
structure Layers where
  innerRequired : Bool
  lists : List ListWrapping
deriving DecidableEq, Repr

/-- The wrappers that a word stands for. -/
def layers (w : Wrapping) : Layers := ⟨w.innerIsRequired, w.listWrappings⟩

end Wrapping

end GraphQL
