import TypedClient.Naming.Identifier
/-!
# Label — the parts of a response type's name

The type of an inline response body is named for its status and, where a status has several bodies, for its media type.
-/
namespace TypedClient
namespace Naming

def statusLabels : List (String × String) :=
  [("200", "Success"), ("201", "Created"), ("202", "Accepted"), ("204", "Empty"), ("400", "BadRequest"),
   ("401", "Unauthorized"), ("403", "Forbidden"), ("404", "NotFound"), ("409", "Conflict"),
   ("422", "UnprocessableEntity"), ("500", "ServerError"), ("default", "Default")]

/-- The text in lower case, as far as ASCII goes. -/
def lowerAscii (text : String) : String :=
  String.ofList (text.toList.map Char.toLower)

/-- **The label of a status code**: the common ones by name, all others by their letters and digits. -/
def statusLabel (code : String) : String :=
  match statusLabels.lookup (lowerAscii code) with
  | some label => label
  | none => "Status" ++ String.join (words (Text.upper code))

/-- The subtype of a media type: what follows its first slash, parameters left out. -/
def subtype (mediaType : String) : String :=
  let bare := Text.trim (Text.beforeFirst ';' mediaType)
  match bare.toList.dropWhile (· != '/') with
  | _ :: rest => String.ofList rest
  | [] => bare

/-- **The label of a media type**: the type name of its subtype, `Any` if that has no letter or digit. -/
def mediaLabel (mediaType : String) : String :=
  let name := subtype mediaType
  if (words name).isEmpty then "Any" else typeName name

end Naming
end TypedClient
