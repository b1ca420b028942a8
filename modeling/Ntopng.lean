import Ntopng.Lib.Run
import Ntopng.Lib.Chain
import Ntopng.Lib.Ring
import Ntopng.Lib.RoundUp
import Ntopng.Queue.Spsc
import Ntopng.Queue.SpscProofs
import Ntopng.Queue.Contents
import Ntopng.Hash.Generic
import Ntopng.Hash.GenericProofs
import Ntopng.Lib.Heap
import Ntopng.Lib.Bytes
import Ntopng.Flows.TrafficStats
import Ntopng.Flows.Alerts
import Ntopng.Flows.AlertsProofs
import Ntopng.Hosts.Alerts
import Ntopng.Hosts.AlertsProofs
import Ntopng.Flows.AlertAccounts
import Ntopng.Flows.Dump
import Ntopng.Lib.Decimal
import Ntopng.Lib.Deltas
import Ntopng.Flows.Partials
import Ntopng.Flows.Swap
import Ntopng.Flows.SeqNum
import Ntopng.Flows.Lookup
import Ntopng.Flows.LookupProofs
import Ntopng.Lib.Turns
import Ntopng.Dissect.Packet
import Ntopng.Dissect.Decap
import Ntopng.Dissect.Parse
import Ntopng.Dissect.Bounds
import Ntopng.Dissect.Progress
import Ntopng.Dissect.Unseen
import Ntopng.Dissect.Safety
import Ntopng.Dissect.Counting
import Ntopng.Lib.Slots
import Ntopng.Hosts.Engaged
import Ntopng.Hosts.EngagedProofs
import Ntopng.Lib.Prefixes
import Ntopng.Addresses.Tree
import Ntopng.Addresses.Restore
import Ntopng.Pool.ThreadPool
import Ntopng.Pool.ThreadPoolProofs
import Ntopng.Queue.Fifo
import Ntopng.Alerts.Recipients
import Ntopng.Alerts.RecipientsProofs
import Ntopng.Collect.CountersProofs
import Ntopng.Collect.Peers
import Ntopng.Collect.Exchange
import Ntopng.Collect.Delivery
import Ntopng.Zmq.Record
import Ntopng.Zmq.SwapDecision
import Ntopng.Flows.DirectionProofs
import Ntopng.Flows.TcpFlags
import Ntopng.Flows.TcpCounters
import Ntopng.Flows.ConnState
import Ntopng.Redis.Cache
import Ntopng.Redis.CacheProofs
import Ntopng.Lib.Lex
import Ntopng.Addresses.SqlFilters
import Ntopng.Addresses.SqlFiltersProofs
import Ntopng.Lib.Tally
import Ntopng.Hosts.Census
import Ntopng.Hosts.CensusProofs
import Ntopng.Tables.Frequent
import Ntopng.Flows.HrCounters
import Ntopng.Lib.Probing
import Ntopng.Tables.InterfaceStats
import Ntopng.Flows.Streams
import Ntopng.Lib.Words
import Ntopng.Addresses.Counts
import Ntopng.Protocols.Iec104
import Ntopng.Protocols.Iec104Split
import Ntopng.Protocols.Iec104Dialogue
import Ntopng.Lib.CString
import Ntopng.Protocols.Syslog
import Ntopng.Protocols.Rfc5424
import Ntopng.Lib.DnsName
import Ntopng.Protocols.Mdns
import Ntopng.Protocols.MdnsQuestion
import Ntopng.Protocols.MdnsReply
import Ntopng.Alerts.Windows
import Ntopng.Text.Hex
import Ntopng.Text.Base64
import Ntopng.Lib.CNumber
import Ntopng.Alerts.Bitmap
import Ntopng.Alerts.BitmapHex
import Ntopng.Text.Purify
import Ntopng.Collect.CollectedFlags
import Ntopng.Collect.Companion
import Ntopng.Lib.LastWrite
import Ntopng.Addresses.Tags
import Ntopng.Addresses.TagsText
import Ntopng.Addresses.TagsProofs
import Ntopng.Pool.RoundTime
import Ntopng.Lib.Ramp
import Ntopng.Hosts.ScoreCounter
import Ntopng.Lib.Hashed
import Ntopng.Hosts.OtherEngaged
import Ntopng.Hosts.Intoa
import Ntopng.Hash.Coverage
import Ntopng.Hash.Refines
import Ntopng.Hosts.HostNames
import Ntopng.Lib.Groups
import Ntopng.Pool.JobQueue
import Ntopng.Protocols.DhcpOptions
import Ntopng.Tables.AsnFlows
import Ntopng.Tables.HostsByPort
import Ntopng.Lib.Json
import Ntopng.Flows.PacketsIssues
import Ntopng.Hash.Walk
import Ntopng.Hosts.FlowHits
import Ntopng.Lib.EntryLoop
import Ntopng.Lib.Objects
import Ntopng.Lib.Pointers
import Ntopng.Tables.MostVisited
import Ntopng.Tables.Ndpi
import Ntopng.Hosts.HostPools
import Ntopng.Tables.NdpiObjects
import Ntopng.Tables.IcmpStats
import Ntopng.Tables.NdpiJson
import Ntopng.Flows.RiskExceptions
import Ntopng.Flows.CustomScriptProofs
import Ntopng.Text.LineWriterProofs
import Ntopng.Flows.VlanBidirectional
import Ntopng.Hosts.Listening
import Ntopng.Tables.AsnConfiguration
import Ntopng.Protocols.ArpScan
import Ntopng.Protocols.IecTypeIds
import Ntopng.Tables.ServersProofs
import Ntopng.Protocols.MdnsDissect
import Ntopng.Protocols.MdnsAnswers
