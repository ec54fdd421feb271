import ScriptLint.SemType

/-!
# Built-in functions

Name, result and parameters of each function.
-/

namespace ScriptLint.Definitions.Builtin

def functionTable : List (String × SemType × List (String × SemType)) :=
  [
    ("llAbs", .integer, [("val", .integer)]),
    ("llFabs", .float, [("val", .float)]),
    ("llFloor", .integer, [("val", .float)]),
    ("llCeil", .integer, [("val", .float)]),
    ("llRound", .integer, [("val", .float)]),
    ("llSqrt", .float, [("val", .float)]),
    ("llPow", .float, [("base", .float), ("exponent", .float)]),
    ("llFrand", .float, [("mag", .float)]),
    ("llSin", .float, [("theta", .float)]),
    ("llCos", .float, [("theta", .float)]),
    ("llAtan2", .float, [("y", .float), ("x", .float)]),
    ("llVecMag", .float, [("v", .vector)]),
    ("llVecNorm", .vector, [("v", .vector)]),
    ("llVecDist", .float, [("v1", .vector), ("v2", .vector)]),
    ("llEuler2Rot", .rotation, [("v", .vector)]),
    ("llRot2Euler", .vector, [("quat", .rotation)]),
    ("llSay", .void, [("channel", .integer), ("msg", .string)]),
    ("llShout", .void, [("channel", .integer), ("msg", .string)]),
    ("llWhisper", .void, [("channel", .integer), ("msg", .string)]),
    ("llRegionSay", .void, [("channel", .integer), ("msg", .string)]),
    ("llRegionSayTo", .void, [("target", .key), ("channel", .integer), ("msg", .string)]),
    ("llOwnerSay", .void, [("msg", .string)]),
    ("llInstantMessage", .void, [("user", .key), ("message", .string)]),
    ("llListen", .integer, [("channel", .integer), ("name", .string), ("id", .key), ("msg", .string)]),
    ("llListenRemove", .void, [("number", .integer)]),
    ("llSetTimerEvent", .void, [("sec", .float)]),
    ("llSleep", .void, [("sec", .float)]),
    ("llResetScript", .void, []),
    ("llGetTime", .float, []),
    ("llResetTime", .void, []),
    ("llGetUnixTime", .integer, []),
    ("llGetTimestamp", .string, []),
    ("llGetOwner", .key, []),
    ("llGetKey", .key, []),
    ("llGetCreator", .key, []),
    ("llGetObjectName", .string, []),
    ("llSetObjectName", .void, [("name", .string)]),
    ("llGetObjectDesc", .string, []),
    ("llSetText", .void, [("text", .string), ("color", .vector), ("alpha", .float)]),
    ("llGetPos", .vector, []),
    ("llSetPos", .void, [("pos", .vector)]),
    ("llGetRot", .rotation, []),
    ("llSetRot", .void, [("rot", .rotation)]),
    ("llGetScale", .vector, []),
    ("llSetScale", .void, [("scale", .vector)]),
    ("llApplyImpulse", .void, [("force", .vector), ("local", .integer)]),
    ("llDetectedKey", .key, [("number", .integer)]),
    ("llDetectedName", .string, [("number", .integer)]),
    ("llDetectedOwner", .key, [("number", .integer)]),
    ("llDetectedPos", .vector, [("number", .integer)]),
    ("llKey2Name", .string, [("id", .key)]),
    ("llGetDisplayName", .string, [("id", .key)]),
    ("llRequestPermissions", .void, [("agent", .key), ("perm", .integer)]),
    ("llGetPermissions", .integer, []),
    ("llGetPermissionsKey", .key, []),
    ("llTakeControls", .void, [("controls", .integer), ("accept", .integer), ("pass_on", .integer)]),
    ("llReleaseControls", .void, []),
    ("llStartAnimation", .void, [("anim", .string)]),
    ("llStopAnimation", .void, [("anim", .string)]),
    ("llMessageLinked", .void, [("link", .integer), ("num", .integer), ("str", .string),
      ("id", .key)]),
    ("llGetLinkNumber", .integer, []),
    ("llGetNumberOfPrims", .integer, []),
    ("llSetLinkPrimitiveParamsFast", .void, [("link", .integer), ("rules", .list)]),
    ("llGetPrimitiveParams", .list, [("params", .list)]),
    ("llGetInventoryName", .string, [("type", .integer), ("number", .integer)]),
    ("llGetInventoryNumber", .integer, [("type", .integer)]),
    ("llGetInventoryType", .integer, [("name", .string)]),
    ("llGiveInventory", .void, [("destination", .key), ("inventory", .string)]),
    ("llRezObject", .void, [("inventory", .string), ("pos", .vector), ("vel", .vector),
      ("rot", .rotation), ("param", .integer)]),
    ("llDie", .void, []),
    ("llSensor", .void, [("name", .string), ("id", .key), ("type", .integer), ("range", .float),
      ("arc", .float)]),
    ("llSensorRepeat", .void, [("name", .string), ("id", .key), ("type", .integer),
      ("range", .float), ("arc", .float), ("rate", .float)]),
    ("llSensorRemove", .void, []),
    ("llHTTPRequest", .key, [("url", .string), ("parameters", .list), ("body", .string)]),
    ("llHTTPResponse", .void, [("request_id", .key), ("status", .integer), ("body", .string)]),
    ("llRequestURL", .key, []),
    ("llReleaseURL", .void, [("url", .string)]),
    ("llGetNotecardLine", .key, [("name", .string), ("line", .integer)]),
    ("llDialog", .void, [("avatar", .key), ("message", .string), ("buttons", .list),
      ("channel", .integer)]),
    ("llTextBox", .void, [("avatar", .key), ("message", .string), ("channel", .integer)]),
    ("llStringLength", .integer, [("str", .string)]),
    ("llGetSubString", .string, [("src", .string), ("start", .integer), ("end", .integer)]),
    ("llDeleteSubString", .string, [("src", .string), ("start", .integer), ("end", .integer)]),
    ("llInsertString", .string, [("dst", .string), ("pos", .integer), ("src", .string)]),
    ("llSubStringIndex", .integer, [("source", .string), ("pattern", .string)]),
    ("llToLower", .string, [("src", .string)]),
    ("llToUpper", .string, [("src", .string)]),
    ("llStringTrim", .string, [("src", .string), ("type", .integer)]),
    ("llReplaceSubString", .string, [("src", .string), ("pattern", .string),
      ("replacement", .string), ("count", .integer)]),
    ("llMD5String", .string, [("src", .string), ("nonce", .integer)]),
    ("llSHA1String", .string, [("src", .string)]),
    ("llGenerateKey", .key, []),
    ("llGetListLength", .integer, [("src", .list)]),
    ("llList2String", .string, [("src", .list), ("index", .integer)]),
    ("llList2Integer", .integer, [("src", .list), ("index", .integer)]),
    ("llList2Float", .float, [("src", .list), ("index", .integer)]),
    ("llList2Key", .key, [("src", .list), ("index", .integer)]),
    ("llList2Vector", .vector, [("src", .list), ("index", .integer)]),
    ("llList2Rot", .rotation, [("src", .list), ("index", .integer)]),
    ("llList2List", .list, [("src", .list), ("start", .integer), ("end", .integer)]),
    ("llListFindList", .integer, [("src", .list), ("test", .list)]),
    ("llListInsertList", .list, [("dest", .list), ("src", .list), ("start", .integer)]),
    ("llListReplaceList", .list, [("dest", .list), ("src", .list), ("start", .integer),
      ("end", .integer)]),
    ("llDeleteSubList", .list, [("src", .list), ("start", .integer), ("end", .integer)]),
    ("llListSort", .list, [("src", .list), ("stride", .integer), ("ascending", .integer)]),
    ("llDumpList2String", .string, [("src", .list), ("separator", .string)]),
    ("llParseString2List", .list, [("src", .string), ("separators", .list), ("spacers", .list)]),
    ("llCSV2List", .list, [("src", .string)]),
    ("llList2CSV", .string, [("src", .list)]),
    ("llJsonGetValue", .string, [("json", .string), ("specifiers", .list)]),
    ("llJsonSetValue", .string, [("json", .string), ("specifiers", .list), ("value", .string)]),
    ("llList2Json", .string, [("type", .string), ("values", .list)]),
    ("llLinksetDataWrite", .integer, [("name", .string), ("value", .string)]),
    ("llLinksetDataRead", .string, [("name", .string)]),
    ("llLinksetDataDelete", .integer, [("name", .string)]),
    ("llGetFreeMemory", .integer, []),
    ("llGetUsedMemory", .integer, []),
    ("llGetRegionName", .string, []),
    ("llGetAgentSize", .vector, [("avatar", .key)]),
    ("llSetPrimitiveParams", .void, [("rules", .list)]),
    ("llSetColor", .void, [("color", .vector), ("face", .integer)]),
    ("llSetAlpha", .void, [("alpha", .float), ("face", .integer)]),
    ("llSetTexture", .void, [("texture", .string), ("face", .integer)]),
    ("llPlaySound", .void, [("sound", .string), ("volume", .float)]),
    ("llTriggerSound", .void, [("sound", .string), ("volume", .float)]),
    ("llStopSound", .void, []),
    ("llTarget", .integer, [("position", .vector), ("range", .float)]),
    ("llTargetRemove", .void, [("number", .integer)]),
    ("llMoveToTarget", .void, [("target", .vector), ("tau", .float)]),
    ("llStopMoveToTarget", .void, []),
    ("llGetStartParameter", .integer, []),
    ("llGetScriptName", .string, []),
    ("llSetScriptState", .void, [("name", .string), ("run", .integer)]),
    ("llGetAttached", .integer, []),
    ("llAttachToAvatar", .void, [("attach_point", .integer)]),
    ("llDetachFromAvatar", .void, []),
    ("llEmail", .void, [("address", .string), ("subject", .string), ("message", .string)]),
    ("llGetNextEmail", .void, [("address", .string), ("subject", .string)]),
    ("llGiveMoney", .integer, [("destination", .key), ("amount", .integer)]),
    ("llTransferLindenDollars", .key, [("destination", .key), ("amount", .integer)]),
    ("llIntegerToBase64", .string, [("number", .integer)]),
    ("llBase64ToInteger", .integer, [("str", .string)]),
    ("llStringToBase64", .string, [("str", .string)]),
    ("llBase64ToString", .string, [("str", .string)]),
    ("llGetEnv", .string, [("name", .string)])
  ]

end ScriptLint.Definitions.Builtin
