import LosslessBasic.Text.Bytes

/-!
# Keywords

The words the language reserves, in alphabetical order, with their customary spelling. A *soft*
keyword is reserved only where a statement or clause asks for it; elsewhere it serves as a name.
-/

namespace LosslessBasic

/-- A keyword. -/
inductive Keyword where
  | access | addressOf | alias_ | and | any | appActivate | append | as | attribute_ | base | beep
  | begin | binary | boolean | byRef | byte | byVal | call | case | chDir | chDrive | class_
  | close | compare | const | currency | database | date | decimal | declare | defBool | defByte
  | defCur | defDate | defDbl | defDec | defInt | defLng | defObj | defSng | defStr | defVar
  | deleteSetting | dim | do_ | double | each | else_ | elseIf | empty | end_ | enum | eqv | erase
  | error | event | exit | explicit | false_ | fileCopy | for_ | friend | function | get | global
  | goSub | goTo | if_ | imp | implements | in_ | input | integer | is | kill | len | let_ | lib
  | like | line | load | lock | long | loop | lSet | me | mid | midB | mkDir | mod | module | name
  | new | next | not | nothing | null | object | on_ | open_ | option | optional | or | output
  | paramArray | preserve | print | private_ | property | public_ | put | raiseEvent | random
  | randomize | read | reDim | reset | resume | return_ | rmDir | rSet | savePicture | saveSetting
  | seek | select | sendKeys | set | setAttr | shared | single | static_ | step | stop | string
  | sub | text | then_ | time | to_ | true_ | type | typeOf | unload | unlock | until_ | variant
  | version | wend | while_ | width | with_ | withEvents | write | xor
  deriving DecidableEq, Repr

namespace Keyword

/-- All keywords, in alphabetical order. -/
def all : List Keyword :=
  [.access, .addressOf, .alias_, .and, .any, .appActivate, .append, .as, .attribute_, .base,
   .beep, .begin, .binary, .boolean, .byRef, .byte, .byVal, .call, .case, .chDir, .chDrive,
   .class_, .close, .compare, .const, .currency, .database, .date, .decimal, .declare, .defBool,
   .defByte, .defCur, .defDate, .defDbl, .defDec, .defInt, .defLng, .defObj, .defSng, .defStr,
   .defVar, .deleteSetting, .dim, .do_, .double, .each, .else_, .elseIf, .empty, .end_, .enum,
   .eqv, .erase, .error, .event, .exit, .explicit, .false_, .fileCopy, .for_, .friend, .function,
   .get, .global, .goSub, .goTo, .if_, .imp, .implements, .in_, .input, .integer, .is, .kill,
   .len, .let_, .lib, .like, .line, .load, .lock, .long, .loop, .lSet, .me, .mid, .midB, .mkDir,
   .mod, .module, .name, .new, .next, .not, .nothing, .null, .object, .on_, .open_, .option,
   .optional, .or, .output, .paramArray, .preserve, .print, .private_, .property, .public_, .put,
   .raiseEvent, .random, .randomize, .read, .reDim, .reset, .resume, .return_, .rmDir, .rSet,
   .savePicture, .saveSetting, .seek, .select, .sendKeys, .set, .setAttr, .shared, .single,
   .static_, .step, .stop, .string, .sub, .text, .then_, .time, .to_, .true_, .type, .typeOf,
   .unload, .unlock, .until_, .variant, .version, .wend, .while_, .width, .with_, .withEvents,
   .write, .xor]

/-- The customary spelling of a keyword. -/
def spelling : Keyword → String
  | access => "Access"
  | addressOf => "AddressOf"
  | alias_ => "Alias"
  | and => "And"
  | any => "Any"
  | appActivate => "AppActivate"
  | append => "Append"
  | as => "As"
  | attribute_ => "Attribute"
  | base => "Base"
  | beep => "Beep"
  | begin => "Begin"
  | binary => "Binary"
  | boolean => "Boolean"
  | byRef => "ByRef"
  | byte => "Byte"
  | byVal => "ByVal"
  | call => "Call"
  | case => "Case"
  | chDir => "ChDir"
  | chDrive => "ChDrive"
  | class_ => "Class"
  | close => "Close"
  | compare => "Compare"
  | const => "Const"
  | currency => "Currency"
  | database => "Database"
  | date => "Date"
  | decimal => "Decimal"
  | declare => "Declare"
  | defBool => "DefBool"
  | defByte => "DefByte"
  | defCur => "DefCur"
  | defDate => "DefDate"
  | defDbl => "DefDbl"
  | defDec => "DefDec"
  | defInt => "DefInt"
  | defLng => "DefLng"
  | defObj => "DefObj"
  | defSng => "DefSng"
  | defStr => "DefStr"
  | defVar => "DefVar"
  | deleteSetting => "DeleteSetting"
  | dim => "Dim"
  | do_ => "Do"
  | double => "Double"
  | each => "Each"
  | else_ => "Else"
  | elseIf => "ElseIf"
  | empty => "Empty"
  | end_ => "End"
  | enum => "Enum"
  | eqv => "Eqv"
  | erase => "Erase"
  | error => "Error"
  | event => "Event"
  | exit => "Exit"
  | explicit => "Explicit"
  | false_ => "False"
  | fileCopy => "FileCopy"
  | for_ => "For"
  | friend => "Friend"
  | function => "Function"
  | get => "Get"
  | global => "Global"
  | goSub => "GoSub"
  | goTo => "GoTo"
  | if_ => "If"
  | imp => "Imp"
  | implements => "Implements"
  | in_ => "In"
  | input => "Input"
  | integer => "Integer"
  | is => "Is"
  | kill => "Kill"
  | len => "Len"
  | let_ => "Let"
  | lib => "Lib"
  | like => "Like"
  | line => "Line"
  | load => "Load"
  | lock => "Lock"
  | long => "Long"
  | loop => "Loop"
  | lSet => "LSet"
  | me => "Me"
  | mid => "Mid"
  | midB => "MidB"
  | mkDir => "MkDir"
  | mod => "Mod"
  | module => "Module"
  | name => "Name"
  | new => "New"
  | next => "Next"
  | not => "Not"
  | nothing => "Nothing"
  | null => "Null"
  | object => "Object"
  | on_ => "On"
  | open_ => "Open"
  | option => "Option"
  | optional => "Optional"
  | or => "Or"
  | output => "Output"
  | paramArray => "ParamArray"
  | preserve => "Preserve"
  | print => "Print"
  | private_ => "Private"
  | property => "Property"
  | public_ => "Public"
  | put => "Put"
  | raiseEvent => "RaiseEvent"
  | random => "Random"
  | randomize => "Randomize"
  | read => "Read"
  | reDim => "ReDim"
  | reset => "Reset"
  | resume => "Resume"
  | return_ => "Return"
  | rmDir => "RmDir"
  | rSet => "RSet"
  | savePicture => "SavePicture"
  | saveSetting => "SaveSetting"
  | seek => "Seek"
  | select => "Select"
  | sendKeys => "SendKeys"
  | set => "Set"
  | setAttr => "SetAttr"
  | shared => "Shared"
  | single => "Single"
  | static_ => "Static"
  | step => "Step"
  | stop => "Stop"
  | string => "String"
  | sub => "Sub"
  | text => "Text"
  | then_ => "Then"
  | time => "Time"
  | to_ => "To"
  | true_ => "True"
  | type => "Type"
  | typeOf => "TypeOf"
  | unload => "Unload"
  | unlock => "Unlock"
  | until_ => "Until"
  | variant => "Variant"
  | version => "Version"
  | wend => "Wend"
  | while_ => "While"
  | width => "Width"
  | with_ => "With"
  | withEvents => "WithEvents"
  | write => "Write"
  | xor => "Xor"

/-- Whether the keyword may be read as a name where it is not asked for. -/
def isSoft : Keyword → Bool
  | access | alias_ | any | appActivate | append | attribute_ | base | beep | begin | binary
  | boolean | byte | chDir | chDrive | class_ | close | compare | currency | database | date
  | decimal | deleteSetting | double | error | explicit | fileCopy | get | input | integer
  | kill | len | lib | line | load | lock | long | lSet | me | mid | midB | mkDir | module
  | name | object | open_ | output | print | put | random | randomize | read | reset | rmDir
  | rSet | savePicture | saveSetting | seek | sendKeys | setAttr | shared | single | step
  | string | text | time | unload | unlock | variant | version | width | write => true
  | _ => false

end Keyword

end LosslessBasic
