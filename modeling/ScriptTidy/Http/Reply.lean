import ScriptTidy.Http.Message
import ScriptTidy.Text.Pattern

/-!
# Replies

The forms of answer that handlers give: JSON values, errors as JSON objects, and plain texts.
-/

namespace ScriptTidy.Http.Reply

open JsonValue (field)

/-- A plain text, as answer to what cannot be answered otherwise. -/
def plain (code : Int) (text : Bytes) : List Act :=
  [.header "Content-Type" "text/plain; charset=utf-8",
    .header "X-Content-Type-Options" "nosniff",
    .status code, .write (text ++ [0x0A])]

/-- A JSON value. -/
def json (code : Int) (v : JsonValue) : List Act :=
  [.header "Content-Type" "application/json", .status code, .write v.render]

/-- The answer in place of an infinite number, which JSON cannot express. -/
def infinite : List Act := plain 500 (utf8 "json: unsupported value: +Inf")

/-- An error, told by a pattern with arguments. A pattern without arguments is taken as it is. -/
def error (code : Int) (pattern : Bytes) (args : List Verb.Argument) : List Act :=
  json code (.obj [field "error"
    (.str (if args.isEmpty then pattern else Pattern.message pattern args))])

/-- An error that is the client's fault. -/
def badRequest (pattern : Bytes) (args : List Verb.Argument) : List Act := error 400 pattern args

/-- An error at a place of a document that the client sent. -/
def positioned (code : Int) (message : Bytes) (line column : Int) : List Act :=
  json code (.obj [field "error" (.str message), field "line" (.int line),
    field "column" (.int column)])

/-- The answer for a path that leads nowhere. -/
def notFound : List Act := plain 404 (utf8 "404 page not found")

/-- The answer for a method that a path does not know. -/
def methodNotAllowed : List Act := [.status 405]

/-- The answer that sends the client to another path. -/
def moved (location : Bytes) : List Act :=
  [.setHeader (utf8 "Location") location, .status 301]

end ScriptTidy.Http.Reply
