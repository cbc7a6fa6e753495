import HamRouter.Program.Str
import Mathlib.Data.List.AList

/-! # Messages and their metadata -/

namespace HamRouter

/-- A `db_record_data`, as far as the filters and the switchboard look at it. -/
structure DbRecordData where
  sValue : StdString
deriving DecidableEq

/-- `std::map<std::string, db_record_data>`. -/
abbrev Meta := AList (fun _ : StdString => DbRecordData)

/-- A `message` that came in through a tranceiver of type `τ`, if through any. -/
structure Message (τ : Type*) where
  source : Option τ
  content : List UInt8
  metadata : Meta

end HamRouter
