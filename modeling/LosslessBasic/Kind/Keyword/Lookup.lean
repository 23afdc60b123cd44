import LosslessBasic.Kind
import LosslessBasic.Text.Ascii

/-!
# Looking up keywords

The words of the keywords stand in a table, in upper case and in ascending order, so a word is
looked up by halving: in upper case it is compared with the middle of a window of the table, and the
search goes on in the half that can still hold it. A word is brought to upper case in a buffer of
fixed size, and a word that does not fit into it is not looked up at all.
-/

namespace LosslessBasic

namespace Keyword

/-- The keywords with their words in upper case, in ascending order. -/
def words : List (String × Keyword) :=
  [("ACCESS", .access), ("ADDRESSOF", .addressOf), ("ALIAS", .alias_), ("AND", .and), ("ANY", .any),
   ("APPACTIVATE", .appActivate), ("APPEND", .append), ("AS", .as), ("ATTRIBUTE", .attribute_),
   ("BASE", .base), ("BEEP", .beep), ("BEGIN", .begin), ("BINARY", .binary), ("BOOLEAN", .boolean),
   ("BYREF", .byRef), ("BYTE", .byte), ("BYVAL", .byVal), ("CALL", .call), ("CASE", .case),
   ("CHDIR", .chDir), ("CHDRIVE", .chDrive), ("CLASS", .class_), ("CLOSE", .close),
   ("COMPARE", .compare), ("CONST", .const), ("CURRENCY", .currency), ("DATABASE", .database),
   ("DATE", .date), ("DECIMAL", .decimal), ("DECLARE", .declare), ("DEFBOOL", .defBool),
   ("DEFBYTE", .defByte), ("DEFCUR", .defCur), ("DEFDATE", .defDate), ("DEFDBL", .defDbl),
   ("DEFDEC", .defDec), ("DEFINT", .defInt), ("DEFLNG", .defLng), ("DEFOBJ", .defObj),
   ("DEFSNG", .defSng), ("DEFSTR", .defStr), ("DEFVAR", .defVar), ("DELETESETTING", .deleteSetting),
   ("DIM", .dim), ("DO", .do_), ("DOUBLE", .double), ("EACH", .each), ("ELSE", .else_),
   ("ELSEIF", .elseIf), ("EMPTY", .empty), ("END", .end_), ("ENUM", .enum), ("EQV", .eqv),
   ("ERASE", .erase), ("ERROR", .error), ("EVENT", .event), ("EXIT", .exit),
   ("EXPLICIT", .explicit), ("FALSE", .false_), ("FILECOPY", .fileCopy), ("FOR", .for_),
   ("FRIEND", .friend), ("FUNCTION", .function), ("GET", .get), ("GLOBAL", .global),
   ("GOSUB", .goSub), ("GOTO", .goTo), ("IF", .if_), ("IMP", .imp), ("IMPLEMENTS", .implements),
   ("IN", .in_), ("INPUT", .input), ("INTEGER", .integer), ("IS", .is), ("KILL", .kill),
   ("LEN", .len), ("LET", .let_), ("LIB", .lib), ("LIKE", .like), ("LINE", .line), ("LOAD", .load),
   ("LOCK", .lock), ("LONG", .long), ("LOOP", .loop), ("LSET", .lSet), ("ME", .me), ("MID", .mid),
   ("MIDB", .midB), ("MKDIR", .mkDir), ("MOD", .mod), ("MODULE", .module), ("NAME", .name),
   ("NEW", .new), ("NEXT", .next), ("NOT", .not), ("NOTHING", .nothing), ("NULL", .null),
   ("OBJECT", .object), ("ON", .on_), ("OPEN", .open_), ("OPTION", .option),
   ("OPTIONAL", .optional), ("OR", .or), ("OUTPUT", .output), ("PARAMARRAY", .paramArray),
   ("PRESERVE", .preserve), ("PRINT", .print), ("PRIVATE", .private_), ("PROPERTY", .property),
   ("PUBLIC", .public_), ("PUT", .put), ("RAISEEVENT", .raiseEvent), ("RANDOM", .random),
   ("RANDOMIZE", .randomize), ("READ", .read), ("REDIM", .reDim), ("RESET", .reset),
   ("RESUME", .resume), ("RETURN", .return_), ("RMDIR", .rmDir), ("RSET", .rSet),
   ("SAVEPICTURE", .savePicture), ("SAVESETTING", .saveSetting), ("SEEK", .seek),
   ("SELECT", .select), ("SENDKEYS", .sendKeys), ("SET", .set), ("SETATTR", .setAttr),
   ("SHARED", .shared), ("SINGLE", .single), ("STATIC", .static_), ("STEP", .step), ("STOP", .stop),
   ("STRING", .string), ("SUB", .sub), ("TEXT", .text), ("THEN", .then_), ("TIME", .time),
   ("TO", .to_), ("TRUE", .true_), ("TYPE", .type), ("TYPEOF", .typeOf), ("UNLOAD", .unload),
   ("UNLOCK", .unlock), ("UNTIL", .until_), ("VARIANT", .variant), ("VERSION", .version),
   ("WEND", .wend), ("WHILE", .while_), ("WIDTH", .width), ("WITH", .with_),
   ("WITHEVENTS", .withEvents), ("WRITE", .write), ("XOR", .xor)]

/-- The table in which words are looked up. -/
def table : Array (Bytes × Keyword) :=
  (words.map fun (word, keyword) => (Bytes.ofString word, keyword)).toArray

/-- Searches for `word` in the window of a table from `low` up to and without `high`. Each pass
narrows the window, and `passes` bounds their number. -/
def searchWithin {α : Type} (table : Array (Bytes × α)) (word : Bytes) :
    (passes low high : Nat) → Option α
  | 0, _, _ => none
  | passes + 1, low, high =>
    if low < high then
      let middle := low + (high - low) / 2
      match table[middle]? with
      | none => none
      | some (entry, value) =>
        if entry == word then some value
        else if Bytes.precedes entry word then searchWithin table word passes (middle + 1) high
        else searchWithin table word passes low middle
    else none

/-- What stands beside `word` in a table, the words of which ascend. -/
def search {α : Type} (table : Array (Bytes × α)) (word : Bytes) : Option α :=
  searchWithin table word (table.size + 1) 0 table.size

/-- The number of bytes of the longest words that are looked up. -/
def longest : Nat := 16

/-- Writes a word in upper case over the front of a buffer. What does not fit is lost. -/
def overwrite : (word buffer : Bytes) → Bytes
  | [], buffer => buffer
  | _ :: _, [] => []
  | c :: word, _ :: buffer => Ascii.upper c :: overwrite word buffer

/-- A word in upper case, as it stands in a buffer for the longest words. -/
def buffered (word : Bytes) : Bytes :=
  (overwrite word (List.replicate longest 0)).take word.length

/-- The keyword spelled like `word` up to the case of letters. -/
def ofWord? (word : Bytes) : Option Keyword :=
  if word.isEmpty || longest < word.length then none
  else search table (buffered word)

end Keyword

/-- The kind of a word: that of a keyword spelled like it, or an identifier. -/
def Kind.ofWord (word : Bytes) : Kind :=
  match Keyword.ofWord? word with
  | some k => .keyword k
  | none => .lexeme .identifier

end LosslessBasic
