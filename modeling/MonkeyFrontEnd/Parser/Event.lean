import MonkeyFrontEnd.Diagnostic
import MonkeyFrontEnd.Tree.Render

/-!
Events: what a parser does that is worth a line in a log, in the order in which it does it.
-/

namespace MonkeyFrontEnd

inductive Event where
  /-- A token for an illegal character was read from a text, at this byte of it. -/
  | illegal (token : Token) (offset : Nat)
  /-- A diagnostic was recorded. -/
  | failed (diagnostic : Diagnostic)
  /-- A statement was completed. -/
  | parsed (stmt : Stmt)

namespace Event

/-- The severity and the message. -/
def line : Event → String
  | illegal token offset =>
    "DEBUG illegal character " ++ Text.quotedChars token.text ++ " at offset " ++ toString offset
  | failed diagnostic => "DEBUG parse error: " ++ diagnostic.message
  | parsed stmt =>
    "TRACE parsed statement `" ++ stmt.render ++
      "` at offset " ++ toString stmt.token.span.start.offset.toNat

end Event

end MonkeyFrontEnd
