import Mathlib.Data.List.Basic

/-!
# The main view's filtered data

`LogMainView` keeps a pointer to the filtered data, null until `useNewFiltering` sets it, and
hands it on to its overview. Line types come from the filtered data, `Plain` without one; the
mark shortcuts ask it for the next or the previous mark without checking the pointer.
-/

namespace Klogg

/-- `LogMainView`'s `filteredData_` (`none` for null), and the filtered data its overview holds. -/
structure LogMainView (FilteredData : Type) where
  filteredData : Option FilteredData
  overview : Option (Option FilteredData)

namespace LogMainView

variable {FilteredData : Type}

def create (overview : Option (Option FilteredData)) : LogMainView FilteredData :=
  ⟨none, overview⟩

def useNewFiltering (v : LogMainView FilteredData) (filteredData : Option FilteredData) :
    LogMainView FilteredData :=
  ⟨filteredData, v.overview.map fun _ => filteredData⟩

def lineType {LineType : Type} (v : LogMainView FilteredData)
    (lineTypeByLine : FilteredData → Nat → LineType) (plain : LineType) (lineNumber : Nat) :
    LineType :=
  match v.filteredData with
  | some filteredData => lineTypeByLine filteredData lineNumber
  | none => plain

/-- The mark shortcuts of `doRegisterShortcuts`: `none` when `filteredData_` is null, which they
dereference. -/
def markShortcut (v : LogMainView FilteredData) (getMark : FilteredData → Nat → Option Nat)
    (viewPosition : Nat) : Option (Option Nat) :=
  v.filteredData.map fun filteredData => getMark filteredData viewPosition

end LogMainView

end Klogg
