import HamRouter.Verification.Ax25.Bounds
import HamRouter.Verification.Ax25.RoundTrip
import HamRouter.Verification.Filter.Meaning
import HamRouter.Verification.Kiss.Length
import HamRouter.Verification.Kiss.RoundTrip
import HamRouter.Verification.Kiss.Segments
import HamRouter.Verification.Snmp.Bounds
import HamRouter.Model.SnmpFailure
import HamRouter.Verification.Snmp.Failure
import HamRouter.Library.Base128
import HamRouter.Library.BigEndian
import HamRouter.Program.Stats
import HamRouter.Model.SnmpIntegers
import HamRouter.Verification.Snmp.Oid
import HamRouter.Verification.Snmp.OidRoundTrip
import HamRouter.Verification.Snmp.Payload
import HamRouter.Verification.Switchboard.Delivery
import HamRouter.Verification.Tranceiver.Handover
import HamRouter.Library.TokenBucket
import HamRouter.Program.Crc
import HamRouter.Program.Seen
import HamRouter.Verification.Seen.Allowance
import HamRouter.Verification.Seen.Eviction
import HamRouter.Model.SeenRun
import HamRouter.Verification.Seen.Evicted
import HamRouter.Library.Fuel
import HamRouter.Model.FilterScan
import HamRouter.Verification.Filter.Termination
import HamRouter.Library.Trie
import HamRouter.Program.SnmpData
import HamRouter.Model.SnmpRegistry
import HamRouter.Verification.Split
import HamRouter.Verification.Snmp.Tree
import HamRouter.Verification.Snmp.Registry
import HamRouter.Verification.Snmp.Successor
import HamRouter.Model.GpsPosition
import HamRouter.Verification.Gps.Position
import HamRouter.Library.Attempts
import HamRouter.Program.Axudp
import HamRouter.Program.Lora
import HamRouter.Model.AxudpPeers
import HamRouter.Verification.Axudp.Filters
import HamRouter.Verification.Axudp.Echo
import HamRouter.Verification.Axudp.Checksum
import HamRouter.Verification.Tranceiver.Relay
import HamRouter.Model.Ax25Frame
import HamRouter.Verification.Ax25.Addresses
import HamRouter.Verification.Ax25.Frames
import HamRouter.Verification.Ax25.Validity
import HamRouter.Verification.Ax25.Regenerate
import HamRouter.Verification.Ax25.Acceptance
import HamRouter.Verification.Snmp.Lookup
import HamRouter.Model.SnmpPaths
import HamRouter.Verification.Snmp.Paths
import HamRouter.Model.SnmpRequest
import HamRouter.Model.SnmpValue
import HamRouter.Verification.Snmp.Request
import HamRouter.Verification.Snmp.Header
import HamRouter.Verification.Snmp.Integers
import HamRouter.Model.BeaconReport
import HamRouter.Verification.Gps.Beacon
import HamRouter.Program.AprsSi
import HamRouter.Model.AprsSession
import HamRouter.Verification.AprsSi.Line
import HamRouter.Verification.AprsSi.Session
import HamRouter.Library.MarkedLog
import HamRouter.Program.Websockets
import HamRouter.Model.WebsocketSession
import HamRouter.Verification.Websockets.History
import HamRouter.Program.Buffer
import HamRouter.Model.BufferRun
import HamRouter.Verification.Buffer.Cursor
import HamRouter.Program.Router
import HamRouter.Verification.Router.Handled
import HamRouter.Verification.Router.Drain
import HamRouter.Verification.Router.Flood
import HamRouter.Library.Records
import HamRouter.Program.StatsStore
import HamRouter.Model.StatsTable
import HamRouter.Verification.Stats.Store
import HamRouter.Library.ShiftRegister
import HamRouter.Verification.Crc
import HamRouter.Verification.Seen.Corrupted
import HamRouter.Model.SnmpManager
import HamRouter.Verification.Snmp.Exchange
import HamRouter.Verification.Snmp.Manager
import HamRouter.Model.AxudpNetwork
import HamRouter.Verification.Axudp.Network
import HamRouter.Library.Appending
import HamRouter.Library.Fallible
import HamRouter.Program.Mappings
import HamRouter.Program.Configuration
import HamRouter.Model.ManagedObjects
import HamRouter.Verification.Configuration.Objects
import HamRouter.Verification.Configuration.Capacity
import HamRouter.Verification.Configuration.Counting
import HamRouter.Verification.Configuration.Walk
import HamRouter.Model.NamedMappings
import HamRouter.Verification.Configuration.Mappings
import HamRouter.Model.AcceptedConfiguration
import HamRouter.Verification.Configuration.Accepted
import HamRouter.Verification.Configuration.Asked
