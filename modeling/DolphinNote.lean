import DolphinNote.Transition
import DolphinNote.History
import DolphinNote.Traced
import DolphinNote.Buffer
import DolphinNote.Circular
import DolphinNote.Framer
import DolphinNote.Nesting
import DolphinNote.Globals
import DolphinNote.Protocol
import DolphinNote.Wifi
import DolphinNote.Screen
import DolphinNote.Encoders
import DolphinNote.ScreenFrames
import DolphinNote.Replies
import DolphinNote.Usart1
import DolphinNote.Usart2
import DolphinNote.PhoneReceiver
import DolphinNote.PhoneStreams
import DolphinNote.ScreenReceiver
import DolphinNote.Interrupts
import DolphinNote.MainLoop
import DolphinNote.Control
import DolphinNote.Session
import DolphinNote.ModeSwitch
import DolphinNote.Transmission
import DolphinNote.Refinement
import DolphinNote.TransmitRing
import DolphinNote.Rounds
import DolphinNote.PenFrames
import DolphinNote.Reconnection
import DolphinNote.Carryover
import DolphinNote.Heartbeat
import DolphinNote.CleanStart
import DolphinNote.SpiFlash
import DolphinNote.FlashQueue
import DolphinNote.FlashErase
import DolphinNote.Ledseq
import DolphinNote.LedThreads
import DolphinNote.Requests
import DolphinNote.FrameContents
import DolphinNote.ScreenStreams
import DolphinNote.ResetRequest
import DolphinNote.KeyEvents
import DolphinNote.LedFrame
import DolphinNote.Provisioning
import DolphinNote.KeyScan
import DolphinNote.CString
import DolphinNote.AtCommand
import DolphinNote.AtPort
import DolphinNote.StationAddress
import DolphinNote.LedTiming
import DolphinNote.TimerRuns
import DolphinNote.HeapRuns
