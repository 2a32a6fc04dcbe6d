/-! # Texts as bytes

The bytes of a text in UTF-8, and the text behind bytes that are well-formed. -/

namespace MutationLab.Text

/-- The bytes of a text. -/
def utf8 (text : String) : List UInt8 := text.toUTF8.data.toList

/-- The text of well-formed bytes. -/
def ofUtf8? (bytes : List UInt8) : Option String := String.fromUTF8? ⟨bytes.toArray⟩

end MutationLab.Text
