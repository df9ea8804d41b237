/-
What the client shows on its terminal for a response.

A response that is not `okay` is shown with its status. The answer to a scan is a
list of texts, which is taken apart: the cursor to go on from, then the keys,
numbered from one. Anything else is shown as text, and bytes that are no text as
nearly as they can be.
-/
import TwinTable.Text.Lossy
import TwinTable.Wire.Response

set_option autoImplicit false

namespace TwinTable.Service.Transcript

open Wire

/-- A line for each key, numbered from one. -/
def numbered (keys : List String) : String :=
  String.join (keys.mapIdx fun i key => s!"  {i + 1}) {key}\n")

/-- The text shown for a scan reply: its first item is the cursor. -/
def page (cursor : String) (keys : List String) : String :=
  s!"[srv] next cursor {cursor}\n" ++ numbered keys

/-- The text shown for a payload as it is. -/
def plain (payload : ByteArray) : String :=
  s!"[srv] {Text.Lossy.decode payload}\n"

/-- The text shown for the response to `command`. -/
def ofResponse (command : String) (r : Response) : String :=
  if r.status ≠ Response.okay then
    s!"[srv] ({r.status.toInt}) {Text.Lossy.decode r.payload}\n"
  else if command = "scan" then
    match Request.decode r.payload with
    | .ok (cursor :: keys, _) => page cursor keys
    | _ => plain r.payload
  else
    plain r.payload

end TwinTable.Service.Transcript
