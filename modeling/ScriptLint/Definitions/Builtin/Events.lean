import ScriptLint.SemType

/-!
# Built-in events

Name and parameters of each event.
-/

namespace ScriptLint.Definitions.Builtin

def eventTable : List (String × List (String × SemType)) :=
  [
    ("at_rot_target", [("handle", .integer), ("targetrot", .rotation), ("ourrot", .rotation)]),
    ("at_target", [("tnum", .integer), ("targetpos", .vector), ("ourpos", .vector)]),
    ("attach", [("id", .key)]),
    ("changed", [("change", .integer)]),
    ("collision", [("num_detected", .integer)]),
    ("collision_end", [("num_detected", .integer)]),
    ("collision_start", [("num_detected", .integer)]),
    ("control", [("id", .key), ("level", .integer), ("edge", .integer)]),
    ("dataserver", [("queryid", .key), ("data", .string)]),
    ("email", [("time", .string), ("address", .string), ("subject", .string), ("message", .string),
      ("num_left", .integer)]),
    ("experience_permissions", [("agent_id", .key)]),
    ("experience_permissions_denied", [("agent_id", .key), ("reason", .integer)]),
    ("http_request", [("request_id", .key), ("method", .string), ("body", .string)]),
    ("http_response", [("request_id", .key), ("status", .integer), ("metadata", .list),
      ("body", .string)]),
    ("land_collision", [("pos", .vector)]),
    ("land_collision_end", [("pos", .vector)]),
    ("land_collision_start", [("pos", .vector)]),
    ("link_message", [("sender_num", .integer), ("num", .integer), ("str", .string), ("id", .key)]),
    ("linkset_data", [("action", .integer), ("name", .string), ("value", .string)]),
    ("listen", [("channel", .integer), ("name", .string), ("id", .key), ("message", .string)]),
    ("money", [("id", .key), ("amount", .integer)]),
    ("moving_end", []),
    ("moving_start", []),
    ("no_sensor", []),
    ("not_at_rot_target", []),
    ("not_at_target", []),
    ("object_rez", [("id", .key)]),
    ("on_rez", [("start_param", .integer)]),
    ("path_update", [("type", .integer), ("reserved", .list)]),
    ("remote_data", [("event_type", .integer), ("channel", .key), ("message_id", .key),
      ("sender", .string), ("idata", .integer), ("sdata", .string)]),
    ("run_time_permissions", [("perm", .integer)]),
    ("sensor", [("num_detected", .integer)]),
    ("state_entry", []),
    ("state_exit", []),
    ("timer", []),
    ("touch", [("num_detected", .integer)]),
    ("touch_end", [("num_detected", .integer)]),
    ("touch_start", [("num_detected", .integer)]),
    ("transaction_result", [("id", .key), ("success", .integer), ("data", .string)])
  ]

end ScriptLint.Definitions.Builtin
