set_option autoImplicit false

namespace Ct.Lib

/-- A NUL-terminated string: its characters before the terminator. -/
abbrev CString := List Char

/-- A text without terminators. -/
abbrev Text := { text : CString // '\x00' ∉ text }

end Ct.Lib
