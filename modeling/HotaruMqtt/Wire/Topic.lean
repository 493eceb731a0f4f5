import HotaruMqtt.Wire.Bytes
import HotaruMqtt.Wire.Error

/-!
# Topic names and filters

A string is cut at every `/`; the pieces are lists of characters. Validation walks the pieces in
order and stops at the first one it rejects. `filterMatches` is the loop the broker runs for every
stored filter; its two indices always move together, so one list recursion follows both.
-/

namespace HotaruMqtt.Topic

def maxTopicLen : ℕ := 65535

/-- `str::split('/')`. -/
def segments (topic : String) : List (List Char) := topic.toList.splitOn '/'

def hasWildcard (segment : List Char) : Bool := segment.contains '+' || segment.contains '#'

/-- The segment loop of `validate_subscribe_filter`, at index `i`. -/
def checkFilterSegments (lastIdx : ℕ) : ℕ → List (List Char) → Except MqttError Unit
  | _, [] => .ok ()
  | i, segment :: rest =>
      if segment = ['+'] then checkFilterSegments lastIdx (i + 1) rest
      else if segment = ['#'] then
        if i ≠ lastIdx then .error (.protocol .hashWildcardNotTerminal)
        else checkFilterSegments lastIdx (i + 1) rest
      else if hasWildcard segment then .error (.protocol .wildcardMixedWithLiteral)
      else checkFilterSegments lastIdx (i + 1) rest

def validateSubscribeFilter (filter : String) : Except MqttError Unit :=
  if filter = "" then .error (.protocol .emptyTopic)
  else if (asBytes filter).length > maxTopicLen then .error (.protocol .topicTooLong)
  else checkFilterSegments ((segments filter).length - 1) 0 (segments filter)

/-- A segment of a path. The payload of `regex` is not looked at in this crate. -/
inductive PathPattern where
  | literal (segment : String)
  | any
  | regex (pattern : String)
  | anyPath
  deriving DecidableEq

/-- The segment loop of `parse_subscribe_filter`, at index `i`. -/
def parseFilterSegments (lastIdx : ℕ) : ℕ → List (List Char) → Except MqttError (List PathPattern)
  | _, [] => .ok []
  | i, segment :: rest =>
      if segment = ['+'] then do
        let patterns ← parseFilterSegments lastIdx (i + 1) rest
        .ok (.any :: patterns)
      else if segment = ['#'] then
        if i ≠ lastIdx then .error (.protocol .hashWildcardNotTerminal)
        else do
          let patterns ← parseFilterSegments lastIdx (i + 1) rest
          .ok (.anyPath :: patterns)
      else if hasWildcard segment then .error (.protocol .wildcardMixedWithLiteral)
      else do
        let patterns ← parseFilterSegments lastIdx (i + 1) rest
        .ok (.literal (String.ofList segment) :: patterns)

def parseSubscribeFilter (filter : String) : Except MqttError (List PathPattern) :=
  if filter = "" then .error (.protocol .emptyTopic)
  else if (asBytes filter).length > maxTopicLen then .error (.protocol .topicTooLong)
  else parseFilterSegments ((segments filter).length - 1) 0 (segments filter)

/-- The text of one pattern. A regular expression becomes a wildcard for one level. -/
def wireSegment : PathPattern → List Char
  | .literal segment => segment.toList
  | .any | .regex _ => ['+']
  | .anyPath => ['#']

def pathToWireFilter (path : List PathPattern) : String :=
  String.ofList (['/'].intercalate (path.map wireSegment))

/-- The segment loop of `validate_publish_topic`. -/
def checkTopicSegments : List (List Char) → Except MqttError Unit
  | [] => .ok ()
  | segment :: rest =>
      if hasWildcard segment then .error (.protocol .wildcardInPublishTopic)
      else checkTopicSegments rest

def validatePublishTopic (topic : String) : Except MqttError Unit :=
  if topic = "" then .error (.protocol .emptyTopic)
  else if (asBytes topic).length > maxTopicLen then .error (.protocol .topicTooLong)
  else checkTopicSegments (segments topic)

/-- The segment loop of `parse_publish_topic`. -/
def parseTopicSegments : List (List Char) → Except MqttError (List PathPattern)
  | [] => .ok []
  | segment :: rest =>
      if hasWildcard segment then .error (.protocol .wildcardInPublishTopic)
      else do
        let patterns ← parseTopicSegments rest
        .ok (.literal (String.ofList segment) :: patterns)

def parsePublishTopic (topic : String) : Except MqttError (List PathPattern) :=
  if topic = "" then .error (.protocol .emptyTopic)
  else if (asBytes topic).length > maxTopicLen then .error (.protocol .topicTooLong)
  else parseTopicSegments (segments topic)

/-- The matching loop on what is left of the filter and of the topic. -/
def matchSegments : List (List Char) → List (List Char) → Bool
  | [], topicSegs => topicSegs.isEmpty
  | segment :: filterSegs, topicSegs =>
      if segment = ['#'] then true
      else match topicSegs with
        | [] => false
        | level :: topicSegs =>
            if segment = ['+'] then matchSegments filterSegs topicSegs
            else if segment ≠ level then false
            else matchSegments filterSegs topicSegs

def filterMatches (filter : String) (topicSegs : List (List Char)) : Bool :=
  matchSegments (segments filter) topicSegs

example : filterMatches "a/+/c" (segments "a/b/c") = true := by decide

end HotaruMqtt.Topic
