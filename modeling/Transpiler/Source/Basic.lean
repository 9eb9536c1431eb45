import Transpiler.Guest.Module
import Transpiler.Source.Url

/-!
# Where a parsing module comes from

A module is read from a file, downloaded, or held in memory. Several sources are tried in order until one
of them delivers; what the disk and the network answer is given from outside.
-/

namespace Transpiler

/-! ## The words for the status codes of web responses -/

/-- The word for each code. -/
def statusWords : List (Nat × String) :=
  [(100, "Continue"), (101, "Switching Protocols"), (102, "Processing"), (103, "Early Hints"),
    (200, "OK"), (201, "Created"), (202, "Accepted"), (203, "Non-Authoritative Information"),
    (204, "No Content"), (205, "Reset Content"), (206, "Partial Content"), (207, "Multi-Status"),
    (208, "Already Reported"), (226, "IM Used"), (300, "Multiple Choices"),
    (301, "Moved Permanently"), (302, "Found"), (303, "See Other"), (304, "Not Modified"),
    (305, "Use Proxy"), (307, "Temporary Redirect"), (308, "Permanent Redirect"),
    (400, "Bad Request"), (401, "Unauthorized"), (402, "Payment Required"), (403, "Forbidden"),
    (404, "Not Found"), (405, "Method Not Allowed"), (406, "Not Acceptable"),
    (407, "Proxy Authentication Required"), (408, "Request Timeout"), (409, "Conflict"),
    (410, "Gone"), (411, "Length Required"), (412, "Precondition Failed"),
    (413, "Request Entity Too Large"), (414, "Request URI Too Long"),
    (415, "Unsupported Media Type"), (416, "Requested Range Not Satisfiable"),
    (417, "Expectation Failed"), (418, "I'm a teapot"), (421, "Misdirected Request"),
    (422, "Unprocessable Entity"), (423, "Locked"), (424, "Failed Dependency"), (425, "Too Early"),
    (426, "Upgrade Required"), (428, "Precondition Required"), (429, "Too Many Requests"),
    (431, "Request Header Fields Too Large"), (451, "Unavailable For Legal Reasons"),
    (500, "Internal Server Error"), (501, "Not Implemented"), (502, "Bad Gateway"),
    (503, "Service Unavailable"), (504, "Gateway Timeout"), (505, "HTTP Version Not Supported"),
    (506, "Variant Also Negotiates"), (507, "Insufficient Storage"), (508, "Loop Detected"),
    (510, "Not Extended"), (511, "Network Authentication Required")]

/-- A status code with its words, if it has any. -/
def statusText (code : Nat) : Text :=
  Text.ofNat code ++ " " ++ Text.ofString ((statusWords.lookup code).getD "")

open Guest (Image)

/-- What a server answers. -/
inductive Reply where
  | response (status : Nat) (body : Text)
  | failure (message : Text)

/-- What files hold: the content at a path, or the words for why there is none. -/
abbrev Disk := Text → Except Text Image

/-- A place a module can be fetched from. A remote one comes with what answers its requests. -/
inductive Source where
  | file (path : Text)
  | http (url : Text) (get : Text → Reply)
  | static (name : Text) (data : Image)

namespace Source

/-- The source in words. -/
def text : Source → Text
  | .file path => "file://" ++ path
  | .http url _ => url
  | .static name _ => if name.isEmpty then "static" else "static:" ++ name

/-- The most bytes a remote module may have. -/
def maxSize : Nat := 64 * 1024 * 1024

/-- What a remote source delivers. Only one status counts as success. -/
def download (url : Text) : Reply → Except Fault Text
  | .failure message =>
    .error (.wrap .load .moduleUnavailable ("GET " ++ url) (.plain ("Get " ++ Text.quoted url ++ ": " ++ message)))
  | .response status body =>
    if status != 200 then
      .error (.report ⟨.load, .moduleUnavailable, [], "GET " ++ url ++ ": " ++ statusText status, .number status⟩)
    else if body.length > maxSize then
      .error (.invalidInput .load (url ++ " exceeds " ++ Text.ofNat maxSize ++ " bytes"))
    else .ok body

/-- The module of a source. Nothing is fetched for a caller that has given up. -/
def fetch (disk : Disk) (canceled : Bool) : Source → Except Fault Image
  | .file path =>
    if canceled then .error .canceled
    else match disk path with
      | .ok data => .ok data
      | .error message =>
        .error (.wrap .load .moduleUnavailable ("read " ++ path) (.plain message))
  | .http url get =>
    match Url.parse url with
    | .error message => .error (.wrap .load .invalidInput "build request" (.plain message))
    | .ok _ =>
      (download url (if canceled then .failure Fault.canceled.message else get url)).map .bytes
  | .static name data =>
    if canceled then .error .canceled
    else if data.text.isEmpty then
      .error (.invalidInput .load ("empty module " ++ text (.static name data)))
    else .ok data

/-- The first source that delivers, with what it delivers; else the fault of every one. -/
def fetchFirst (disk : Disk) (canceled : Bool) : List Source → List Fault →
    Except Fault (Image × Source)
  | [], tries => .error (.moduleUnavailable tries)
  | s :: rest, tries =>
    match fetch disk canceled s with
    | .ok data => .ok (data, s)
    | .error fault => fetchFirst disk canceled rest (tries ++ [fault])

/-- The source a location names: a web address, a file address or a path. -/
def ofLocation (get : Text → Reply) (location : Text) : Except Fault Source :=
  if location.isEmpty then .error (.invalidInput .load "empty module location")
  else if !Text.hasPart "://" location then .ok (.file location)
  else match Url.parse location with
    | .error message =>
      .error (.wrap .load .invalidInput "parse module location" (.plain message))
    | .ok url =>
      if url.scheme == "http" || url.scheme == "https" then .ok (.http location get)
      else if url.scheme == "file" then
        let host := if url.host == "localhost" then [] else url.host
        .ok (.file (host ++ url.path))
      else .error (.unsupported .load ("module source scheme " ++ Text.quoted url.scheme))

/-- The sources at locations. -/
def ofLocations (get : Text → Reply) (locations : List Text) : Except Fault (List Source) :=
  locations.mapM (ofLocation get)

end Source

end Transpiler
