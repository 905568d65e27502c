import TarishDaemon.Lib.Run
import TarishDaemon.Lib.History
import TarishDaemon.Lib.TicketSlot
import TarishDaemon.Lib.Incremental
import TarishDaemon.Lib.Layout
import TarishDaemon.Rust.Text
import TarishDaemon.Rust.Utf16
import TarishDaemon.Protocol.Protobuf
import TarishDaemon.Protocol.Wire
import TarishDaemon.Protocol.Tokens
import TarishDaemon.Protocol.Frames
import TarishDaemon.Protocol.Upgrade
import TarishDaemon.Protocol.FramesWire
import TarishDaemon.Protocol.Sharing
import TarishDaemon.Protocol.SharingWire
import TarishDaemon.Protocol.Fsm
import TarishDaemon.Protocol.FsmConsent
import TarishDaemon.Protocol.FsmTalk
import TarishDaemon.Protocol.FsmOver
import TarishDaemon.Protocol.Handover
import TarishDaemon.Protocol.HandoverTalk
import TarishDaemon.Protocol.Payload
import TarishDaemon.Protocol.Framing
import TarishDaemon.Protocol.FramingStream
import TarishDaemon.Protocol.SecureMessage
import TarishDaemon.Protocol.ChannelTalk
import TarishDaemon.Sharingd.Transfers
import TarishDaemon.Sharingd.SlotThreads
import TarishDaemon.Sharingd.SlotLiveness
import TarishDaemon.Sharingd.HttpdConsent
import TarishDaemon.Sharingd.HttpdSlot
import TarishDaemon.Sharingd.Authenticated
import TarishDaemon.Sharingd.Inbox
import TarishDaemon.Sharingd.Plist
import TarishDaemon.Quickshare.Serve
import TarishDaemon.Quickshare.ServeTalk
import TarishDaemon.Quickshare.ServeInvariant
import TarishDaemon.Quickshare.ServeStep
import TarishDaemon.Quickshare.ServeConsent
import TarishDaemon.Quickshare.ServeWhole
import TarishDaemon.Quickshare.ServeComplete
import TarishDaemon.Quickshare.Send
import TarishDaemon.Quickshare.SendPhase
import TarishDaemon.Quickshare.SendOutcome
import TarishDaemon.Quickshare.Deliver
import TarishDaemon.Tarishd.Route
import TarishDaemon.Tarishd.Lockdown
import TarishDaemon.Tarishd.Exemption
import TarishDaemon.Sharingd.PlistRound
import TarishDaemon.Sharingd.Ask
import TarishDaemon.Protocol.UnknownFields
import TarishDaemon.Protocol.Ukey2Crypto
import TarishDaemon.Protocol.Ukey2
import TarishDaemon.Protocol.Ukey2Agree
import TarishDaemon.Protocol.Ukey2Transcript
import TarishDaemon.Quickshare.Mux
import TarishDaemon.Quickshare.MuxStream
import TarishDaemon.Rust.Radix
import TarishDaemon.Sharingd.Odc
import TarishDaemon.Sharingd.Chunked
import TarishDaemon.Sharingd.Extract
import TarishDaemon.Sharingd.UploadRound
import TarishDaemon.Lib.Fallible
import TarishDaemon.Quickshare.Moving
import TarishDaemon.Quickshare.MovingTalk
import TarishDaemon.Quickshare.Parting
import TarishDaemon.Sharingd.Visibility
import TarishDaemon.Sharingd.LatestWish
import TarishDaemon.Sharingd.Callbacks
import TarishDaemon.Sharingd.ClientDeath
import TarishDaemon.Lib.AnswerSlot
import TarishDaemon.Sharingd.Answers
import TarishDaemon.Sharingd.HostGroup
import TarishDaemon.Sharingd.Decisions
import TarishDaemon.Sharingd.Prompts
import TarishDaemon.Sharingd.RadioOwners
import TarishDaemon.Sharingd.Strikes
import TarishDaemon.Quickshare.Wired
import TarishDaemon.Quickshare.WiredServe
import TarishDaemon.Quickshare.WiredSend
import TarishDaemon.Quickshare.OldSocket
import TarishDaemon.Lib.Keyed
import TarishDaemon.Protocol.PayloadStreams
import TarishDaemon.Quickshare.AcceptFirst
import TarishDaemon.Sharingd.Dns
import TarishDaemon.Sharingd.PlistWhole
import TarishDaemon.Sharingd.DnsRound
import TarishDaemon.Quickshare.Endpoint
import TarishDaemon.Quickshare.Discovery
import TarishDaemon.Quickshare.Discovered
import TarishDaemon.Sharingd.Mdns
import TarishDaemon.Lib.Introduced
import TarishDaemon.Sharingd.RecordOrder
import TarishDaemon.Sharingd.Goodbye
import TarishDaemon.Lib.Questions
import TarishDaemon.Quickshare.ServeStatus
import TarishDaemon.Sharingd.Outcomes
import TarishDaemon.Protocol.PayloadEnds
import TarishDaemon.Quickshare.Sealing
import TarishDaemon.Quickshare.Buffering
import TarishDaemon.Quickshare.Adoption
import TarishDaemon.Quickshare.Acquire
import TarishDaemon.Quickshare.MuxWriter
import TarishDaemon.Lib.Clamped
import TarishDaemon.Sharingd.OfferTotals
import TarishDaemon.Protocol.FramesRound
import TarishDaemon.Quickshare.ServeLog
import TarishDaemon.Sharingd.AskedOnce
import TarishDaemon.Sharingd.Shown
import TarishDaemon.Sharingd.ExtractFiles
import TarishDaemon.Sharingd.Bodies
import TarishDaemon.Sharingd.CutShort
import TarishDaemon.Sharingd.InStep
import TarishDaemon.Sharingd.Uploads
import TarishDaemon.Sharingd.Handle
import TarishDaemon.Sharingd.Received
import TarishDaemon.Protocol.SharingRound
import TarishDaemon.Protocol.UpgradeRound
import TarishDaemon.Sharingd.Ble
import TarishDaemon.Sharingd.BleInside
import TarishDaemon.Sharingd.BleCut
import TarishDaemon.Sharingd.EndpointNames
import TarishDaemon.Quickshare.EndpointRound
import TarishDaemon.Quickshare.Base64Round
import TarishDaemon.Sharingd.Leases
import TarishDaemon.Lib.Whole
import TarishDaemon.Protocol.Apple
import TarishDaemon.Protocol.HkdfExpand
import TarishDaemon.Protocol.ProtobufRound
import TarishDaemon.Sharingd.EvictionGate
import TarishDaemon.Sharingd.PlistBounds
import TarishDaemon.Lib.Traps
import TarishDaemon.Sharingd.PlistArith
import TarishDaemon.Lib.Spaced
import TarishDaemon.Sharingd.DeviceName
import TarishDaemon.Sharingd.BlockFraming
import TarishDaemon.Sharingd.BlePeers
import TarishDaemon.Lib.Newest
import TarishDaemon.Sharingd.PeerRows
import TarishDaemon.Lib.Turns
import TarishDaemon.Protocol.ProtobufExact
import TarishDaemon.Protocol.Coordinates
import TarishDaemon.Sharingd.NameWalk
