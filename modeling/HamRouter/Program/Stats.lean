import HamRouter.Program.SnmpElem

/-! # Counters and times: `stats.cpp` and their elements in `snmp-data.cpp` -/

namespace HamRouter.Snmp

/-- `stats_inc_counter(p)`. -/
def statsIncCounter (p : UInt64) : UInt64 := p + 1

/-- `stats_add_counter(p, value)`. -/
def statsAddCounter (p value : UInt64) : UInt64 := p + value

/-- `snmp_data_type_stats::get_data()` of a counter of a type. -/
def statsGetData (type : IntegerType) (counter : UInt64) : Elem := .integer type counter

/-- `running_since`, from what `get_us()` gave at the start. -/
def runningSince (us : UInt64) : UInt64 := us / 10000

/-- `snmp_data_type_running_since::get_data()`. -/
def runningSinceGetData (runningSince us : UInt64) : Elem :=
  let now := us / 10000
  .integer .ticks (now - runningSince)

end HamRouter.Snmp
