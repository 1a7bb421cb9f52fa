import KiisuFirmware.Run
import KiisuFirmware.Stream
import KiisuFirmware.BufferedFileStream
import KiisuFirmware.Proofs.Stream
import KiisuFirmware.Proofs.BufferedFileStream
import KiisuFirmware.StringStream
import KiisuFirmware.Proofs.StringStream
import KiisuFirmware.EventLoopTimer
import KiisuFirmware.Proofs.EventLoopTimer
import KiisuFirmware.EventLoop
import KiisuFirmware.Proofs.EventLoop
import KiisuFirmware.Proofs.EventLoopItems
import KiisuFirmware.Proofs.EventLoopOnce
import KiisuFirmware.FlipperFormat
import KiisuFirmware.Proofs.FlipperFormat
import KiisuFirmware.Proofs.Strint
import KiisuFirmware.Strint
import KiisuFirmware.Proofs.StrintExact
import KiisuFirmware.ExpansionProtocol
import KiisuFirmware.Proofs.ExpansionProtocol
import KiisuFirmware.ExpansionWorker
import KiisuFirmware.Proofs.ExpansionWorker
import KiisuFirmware.ByteBits
import KiisuFirmware.BitBuffer
import KiisuFirmware.Iso14443Layer
import KiisuFirmware.Proofs.BitBuffer
import KiisuFirmware.Proofs.BitBufferParity
import KiisuFirmware.Proofs.Iso14443Layer
import KiisuFirmware.Proofs.Iso14443Poller
import KiisuFirmware.Proofs.Iso14443Numbers
import KiisuFirmware.KeysDict
import KiisuFirmware.Proofs.BufferedClient
import KiisuFirmware.Proofs.KeysDict
import KiisuFirmware.MfClassic
import KiisuFirmware.MfClassicListener
import KiisuFirmware.Proofs.MfClassicListener
import KiisuFirmware.BitLib
import KiisuFirmware.Proofs.BitLib
import KiisuFirmware.Manchester
import KiisuFirmware.Proofs.Manchester
import KiisuFirmware.ProtocolSecurakey
import KiisuFirmware.Proofs.ProtocolSecurakey
import KiisuFirmware.SubGhzRaw
import KiisuFirmware.Proofs.SubGhzRaw
import KiisuFirmware.SubGhzBlocks
import KiisuFirmware.Keeloq
import KiisuFirmware.Proofs.SubGhzBlocks
import KiisuFirmware.Proofs.Keeloq
import KiisuFirmware.SecplusV1
import KiisuFirmware.Proofs.SecplusV1
import KiisuFirmware.SecplusV2
import KiisuFirmware.Proofs.SecplusV2
import KiisuFirmware.RunLength
import KiisuFirmware.BinRaw
import KiisuFirmware.Proofs.BinRaw
import KiisuFirmware.Protocol
import KiisuFirmware.Fsk
import KiisuFirmware.Rpc
import KiisuFirmware.RpcApp
import KiisuFirmware.Proofs.RpcApp
import KiisuFirmware.Iso15693
import KiisuFirmware.FelicaListener
import KiisuFirmware.Proofs.FelicaStandard
import KiisuFirmware.Proofs.FelicaLite
import KiisuFirmware.Proofs.Iso15693Bounds
import KiisuFirmware.BufferStream
import KiisuFirmware.Proofs.BufferStream
import KiisuFirmware.RpcStorage
import KiisuFirmware.Proofs.RpcStorage
import KiisuFirmware.Proofs.RpcPaging
import KiisuFirmware.RpcStream
import KiisuFirmware.Proofs.RpcStream
import KiisuFirmware.Proofs.RpcHandlers
import KiisuFirmware.Loader
import KiisuFirmware.Proofs.Loader
import KiisuFirmware.Apdu
import KiisuFirmware.Type4Tag
import KiisuFirmware.Proofs.Type4TagListener
import KiisuFirmware.Type4TagPoller
import KiisuFirmware.Proofs.Type4TagPoller
import KiisuFirmware.Varint
import KiisuFirmware.Proofs.Varint
import KiisuFirmware.LfrfidRaw
import KiisuFirmware.Proofs.LfrfidRawCapture
import KiisuFirmware.Proofs.LfrfidRaw
import KiisuFirmware.Companion
import KiisuFirmware.Proofs.Companion
import KiisuFirmware.U2fHid
import KiisuFirmware.Proofs.U2fHid
import KiisuFirmware.U2f
import KiisuFirmware.Proofs.U2f
import KiisuFirmware.Proofs.StreamClient
import KiisuFirmware.Proofs.FlipperLine
import KiisuFirmware.ProtocolCyfral
import KiisuFirmware.Proofs.Protocol
import KiisuFirmware.Proofs.ProtocolCyfral
import KiisuFirmware.ProtocolMetakom
import KiisuFirmware.Proofs.ProtocolMetakom
import KiisuFirmware.Proofs.StreamSeek
import KiisuFirmware.DirWalk
import KiisuFirmware.Proofs.DirWalk
import KiisuFirmware.Heatshrink
import KiisuFirmware.Proofs.Heatshrink
import KiisuFirmware.Compress
import KiisuFirmware.Proofs.Compress
import KiisuFirmware.Proofs.FlipperRead
import KiisuFirmware.FlipperDocument
import KiisuFirmware.Proofs.FlipperDocument
import KiisuFirmware.NiceFlorS
import KiisuFirmware.Proofs.NiceFlorS
import KiisuFirmware.Periods
import KiisuFirmware.DateTime
import KiisuFirmware.Proofs.DateTime
import KiisuFirmware.BitReader
import KiisuFirmware.Proofs.BitReader
import KiisuFirmware.Proofs.BitLibParity
import KiisuFirmware.ProtocolAwid
import KiisuFirmware.Proofs.ProtocolAwid
import KiisuFirmware.Proofs.ManchesterSync
import KiisuFirmware.Came
import KiisuFirmware.ChamberlainCode
import KiisuFirmware.Proofs.Came
import KiisuFirmware.Proofs.ChamberlainCode
import KiisuFirmware.Proofs.StaticReplay
import KiisuFirmware.Princeton
import KiisuFirmware.Proofs.Princeton
import KiisuFirmware.Infrared
import KiisuFirmware.Proofs.Infrared
import KiisuFirmware.SubGhzWorker
import KiisuFirmware.Proofs.SubGhzWorker
import KiisuFirmware.Crypto1
import KiisuFirmware.Proofs.Crypto1
import KiisuFirmware.Proofs.StorageAlias
import KiisuFirmware.Proofs.RemoveRecursive
import KiisuFirmware.SubGhzHash
import KiisuFirmware.Proofs.SubGhzHash
import KiisuFirmware.Proofs.Type4TagCc
import KiisuFirmware.Proofs.Iso15693Quiet
import KiisuFirmware.MfUltralight
import KiisuFirmware.MfUltralightListener
import KiisuFirmware.Proofs.MfUltralightRead
import KiisuFirmware.Proofs.MfUltralightMirrorRead
import KiisuFirmware.PulseJoiner
import KiisuFirmware.Proofs.PulseJoiner
import KiisuFirmware.BitSearch
import KiisuFirmware.OneWireHost
import KiisuFirmware.Proofs.OneWireHost
import KiisuFirmware.ElfRelocation
import KiisuFirmware.Proofs.ElfRelocation
import KiisuFirmware.MfDesfire
import KiisuFirmware.Proofs.MfDesfire
import KiisuFirmware.Felica
import KiisuFirmware.Proofs.FelicaDirectory
import KiisuFirmware.NdefMfc
import KiisuFirmware.Proofs.NdefMfc
import KiisuFirmware.Ndef
import KiisuFirmware.Proofs.Ndef
import KiisuFirmware.Separation
import KiisuFirmware.SimpleArray
import KiisuFirmware.Proofs.SimpleArray
import KiisuFirmware.CliShellLine
import KiisuFirmware.CliShell
import KiisuFirmware.Proofs.CliShellLine
import KiisuFirmware.Proofs.CliShell
import KiisuFirmware.Proofs.CliShellMenu
