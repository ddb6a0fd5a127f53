/-!
# Base letters

A letter with diacritical marks decomposes canonically into a base letter and combining marks. The
table lists the characters whose base letter is an ASCII letter and whose marks are all combining
diacritical marks.
-/

namespace SchemaDdl.Text

def accentedLetters : List (Char × String) :=
  [ ('A', "ÀÁÂÃÄÅĀĂĄǍǞǠǺȀȂȦḀẠẢẤẦẨẪẬẮẰẲẴẶ\u212b"),
    ('B', "ḂḄḆ"),
    ('C', "ÇĆĈĊČḈ"),
    ('D', "ĎḊḌḎḐḒ"),
    ('E', "ÈÉÊËĒĔĖĘĚȄȆȨḔḖḘḚḜẸẺẼẾỀỂỄỆ"),
    ('F', "Ḟ"),
    ('G', "ĜĞĠĢǦǴḠ"),
    ('H', "ĤȞḢḤḦḨḪ"),
    ('I', "ÌÍÎÏĨĪĬĮİǏȈȊḬḮỈỊ"),
    ('J', "Ĵ"),
    ('K', "ĶǨḰḲḴ\u212a"),
    ('L', "ĹĻĽḶḸḺḼ"),
    ('M', "ḾṀṂ"),
    ('N', "ÑŃŅŇǸṄṆṈṊ"),
    ('O', "ÒÓÔÕÖŌŎŐƠǑǪǬȌȎȪȬȮȰṌṎṐṒỌỎỐỒỔỖỘỚỜỞỠỢ"),
    ('P', "ṔṖ"),
    ('R', "ŔŖŘȐȒṘṚṜṞ"),
    ('S', "ŚŜŞŠȘṠṢṤṦṨ"),
    ('T', "ŢŤȚṪṬṮṰ"),
    ('U', "ÙÚÛÜŨŪŬŮŰŲƯǓǕǗǙǛȔȖṲṴṶṸṺỤỦỨỪỬỮỰ"),
    ('V', "ṼṾ"),
    ('W', "ŴẀẂẄẆẈ"),
    ('X', "ẊẌ"),
    ('Y', "ÝŶŸȲẎỲỴỶỸ"),
    ('Z', "ŹŻŽẐẒẔ"),
    ('a', "àáâãäåāăąǎǟǡǻȁȃȧḁạảấầẩẫậắằẳẵặ"),
    ('b', "ḃḅḇ"),
    ('c', "çćĉċčḉ"),
    ('d', "ďḋḍḏḑḓ"),
    ('e', "èéêëēĕėęěȅȇȩḕḗḙḛḝẹẻẽếềểễệ"),
    ('f', "ḟ"),
    ('g', "ĝğġģǧǵḡ"),
    ('h', "ĥȟḣḥḧḩḫẖ"),
    ('i', "ìíîïĩīĭįǐȉȋḭḯỉị"),
    ('j', "ĵǰ"),
    ('k', "ķǩḱḳḵ"),
    ('l', "ĺļľḷḹḻḽ"),
    ('m', "ḿṁṃ"),
    ('n', "ñńņňǹṅṇṉṋ"),
    ('o', "òóôõöōŏőơǒǫǭȍȏȫȭȯȱṍṏṑṓọỏốồổỗộớờởỡợ"),
    ('p', "ṕṗ"),
    ('r', "ŕŗřȑȓṙṛṝṟ"),
    ('s', "śŝşšșṡṣṥṧṩ"),
    ('t', "ţťțṫṭṯṱẗ"),
    ('u', "ùúûüũūŭůűųưǔǖǘǚǜȕȗṳṵṷṹṻụủứừửữự"),
    ('v', "ṽṿ"),
    ('w', "ŵẁẃẅẇẉẘ"),
    ('x', "ẋẍ"),
    ('y', "ýÿŷȳẏẙỳỵỷỹ"),
    ('z', "źżžẑẓẕ") ]

/-- A combining diacritical mark. -/
def isDiacritic (c : Char) : Bool :=
  0x300 ≤ c.toNat && c.toNat ≤ 0x36F

/-- The ASCII letter that `c` carries under its marks, or `c` itself. -/
def baseLetter (c : Char) : Char :=
  if c.toNat < 128 then c
  else match accentedLetters.find? fun entry => entry.2.contains c with
    | some entry => entry.1
    | none => c

theorem baseLetter_of_ascii {c : Char} (h : c.toNat < 128) : baseLetter c = c := by
  simp [baseLetter, h]

end SchemaDdl.Text
