import ScriptLint.Definitions

/-!
# Built-in constants

Name, type and value of each constant; vectors and rotations have no value here.
-/

namespace ScriptLint.Definitions.Builtin

def constantTable : List (String × SemType × Option ConstantValue) :=
  [
    ("TRUE", .integer, some (.int 1)),
    ("FALSE", .integer, some (.int 0)),
    ("PI", .float, some (.float 3.14159265)),
    ("TWO_PI", .float, some (.float 6.28318530)),
    ("PI_BY_TWO", .float, some (.float 1.57079633)),
    ("DEG_TO_RAD", .float, some (.float 0.01745329)),
    ("RAD_TO_DEG", .float, some (.float 57.29577951)),
    ("SQRT2", .float, some (.float 1.41421356)),
    ("NULL_KEY", .key, some (.str "00000000-0000-0000-0000-000000000000")),
    ("EOF", .string, some (.str "\n\n\n")),
    ("ZERO_VECTOR", .vector, none),
    ("ZERO_ROTATION", .rotation, none),
    ("PUBLIC_CHANNEL", .integer, some (.int 0)),
    ("DEBUG_CHANNEL", .integer, some (.int 2147483647)),
    ("LINK_ROOT", .integer, some (.int 1)),
    ("LINK_SET", .integer, some (.int (-1))),
    ("LINK_ALL_OTHERS", .integer, some (.int (-2))),
    ("LINK_ALL_CHILDREN", .integer, some (.int (-3))),
    ("LINK_THIS", .integer, some (.int (-4))),
    ("ALL_SIDES", .integer, some (.int (-1))),
    ("AGENT", .integer, some (.int 1)),
    ("ACTIVE", .integer, some (.int 2)),
    ("PASSIVE", .integer, some (.int 4)),
    ("SCRIPTED", .integer, some (.int 8)),
    ("CHANGED_INVENTORY", .integer, some (.int 1)),
    ("CHANGED_COLOR", .integer, some (.int 2)),
    ("CHANGED_SHAPE", .integer, some (.int 4)),
    ("CHANGED_SCALE", .integer, some (.int 8)),
    ("CHANGED_LINK", .integer, some (.int 32)),
    ("CHANGED_OWNER", .integer, some (.int 128)),
    ("CHANGED_REGION", .integer, some (.int 256)),
    ("CHANGED_TELEPORT", .integer, some (.int 512)),
    ("PERMISSION_DEBIT", .integer, some (.int 2)),
    ("PERMISSION_TAKE_CONTROLS", .integer, some (.int 4)),
    ("PERMISSION_TRIGGER_ANIMATION", .integer, some (.int 16)),
    ("PERMISSION_ATTACH", .integer, some (.int 32)),
    ("CONTROL_FWD", .integer, some (.int 1)),
    ("CONTROL_BACK", .integer, some (.int 2)),
    ("CONTROL_LEFT", .integer, some (.int 4)),
    ("CONTROL_RIGHT", .integer, some (.int 8)),
    ("INVENTORY_ALL", .integer, some (.int (-1))),
    ("INVENTORY_TEXTURE", .integer, some (.int 0)),
    ("INVENTORY_SOUND", .integer, some (.int 1)),
    ("INVENTORY_OBJECT", .integer, some (.int 6)),
    ("INVENTORY_SCRIPT", .integer, some (.int 10)),
    ("INVENTORY_NOTECARD", .integer, some (.int 7)),
    ("STRING_TRIM_HEAD", .integer, some (.int 1)),
    ("STRING_TRIM_TAIL", .integer, some (.int 2)),
    ("STRING_TRIM", .integer, some (.int 3)),
    ("HTTP_METHOD", .integer, some (.int 0)),
    ("HTTP_MIMETYPE", .integer, some (.int 1)),
    ("HTTP_BODY_MAXLENGTH", .integer, some (.int 2)),
    ("HTTP_VERIFY_CERT", .integer, some (.int 3)),
    ("URL_REQUEST_GRANTED", .string, some (.str "URL_REQUEST_GRANTED")),
    ("URL_REQUEST_DENIED", .string, some (.str "URL_REQUEST_DENIED")),
    ("JSON_ARRAY", .string, some (.str "\ufdd2")),
    ("JSON_OBJECT", .string, some (.str "\ufdd1")),
    ("JSON_INVALID", .string, some (.str "\ufdd0")),
    ("PRIM_COLOR", .integer, some (.int 18)),
    ("PRIM_TEXT", .integer, some (.int 26)),
    ("PRIM_POSITION", .integer, some (.int 6)),
    ("PRIM_SIZE", .integer, some (.int 7)),
    ("PRIM_ROTATION", .integer, some (.int 8)),
    ("LINKSETDATA_UPDATE", .integer, some (.int 1)),
    ("LINKSETDATA_DELETE", .integer, some (.int 2)),
    ("LINKSETDATA_RESET", .integer, some (.int 0))
  ]

end ScriptLint.Definitions.Builtin
