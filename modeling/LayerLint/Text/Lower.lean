/-!
# Lower case

Lower-casing as far as plain letters are concerned. Outside the plain letters only two characters
have a lower-case form that contains one: the capital I with a dot, which becomes an `i` and a
combining dot, and the Kelvin sign. Any other character is left alone, so a text of plain characters
occurs in `lower s` exactly where it occurs in the full lower-case form of `s`.
-/

namespace LayerLint.Text

def lowerChar (c : Char) : List Char :=
  if c = 'İ' then ['i', Char.ofNat 0x307]
  else if c = Char.ofNat 0x212a then ['k']
  else [c.toLower]

def lower (cs : List Char) : List Char :=
  cs.flatMap lowerChar

end LayerLint.Text
