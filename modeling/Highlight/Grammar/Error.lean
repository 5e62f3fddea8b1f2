namespace Highlight

inductive GrammarError where
  | invalidPattern (source message : String)
  | emptyToken (token : String)
  | duplicateToken (grammar token : String)
  | unknownGrammar (name : String)
  | anchorNotFound (grammar anchor : String)
  | tokenNotFound (grammar path : String)
deriving DecidableEq

namespace GrammarError

/-- A name as it stands in messages. -/
def mark (name : String) : String :=
  "\x60" ++ name ++ "\x60"

def message : GrammarError → String
  | invalidPattern source message => "Invalid pattern " ++ mark source ++ ": " ++ message
  | emptyToken token => "Token " ++ mark token ++ " has no patterns"
  | duplicateToken grammar token =>
      "Duplicate token " ++ mark token ++ " in grammar " ++ mark grammar
  | unknownGrammar name => "Unknown grammar: " ++ name
  | anchorNotFound grammar anchor =>
      "Anchor token " ++ mark anchor ++ " not found in grammar " ++ mark grammar
  | tokenNotFound grammar path =>
      "Token " ++ mark path ++ " not found in grammar " ++ mark grammar

end GrammarError

end Highlight
