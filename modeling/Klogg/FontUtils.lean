import Mathlib.Data.List.Basic

/-!
# The font lists

`FontUtils` lists the fixed-pitch families of the font database, and the point sizes of a family
or the standard sizes when the family has none.
-/

namespace Klogg

def FontUtils.availableFonts (families : List String) (isFixedPitch : String → Bool) :
    List String :=
  families.filter isFixedPitch

def FontUtils.availableFontSizes (pointSizes : List Int) (standardSizes : List Int) : List Int :=
  if pointSizes.isEmpty then standardSizes else pointSizes

end Klogg
