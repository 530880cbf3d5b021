/-!
# UTF-8

Texts as the bytes of their encoding.
-/

namespace StoreLock.Text

/-- The bytes of a text. -/
def toUtf8 (s : String) : List UInt8 :=
  s.toUTF8.data.toList

/-- The text with these bytes, if they encode one. -/
def ofUtf8? (bytes : List UInt8) : Option String :=
  String.fromUTF8? ⟨bytes.toArray⟩

end StoreLock.Text
